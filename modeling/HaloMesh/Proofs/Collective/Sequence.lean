-- SUMMARY: Collectives that a group runs one after the other end as each of them does alone, whatever their tags.
import HaloMesh.Proofs.Collective.Offers
import HaloMesh.Proofs.Collective.OneToAll
import HaloMesh.Proofs.CopyPlan.Concert
import Mathlib.Logic.Function.Basic

/-!
# Sequences of collectives

The ranks of a group make the same collective calls in the same order and may drift apart by any
number of them. Every call consumes exactly the messages that it is sent, also where a rank fails, so
it finds the mailbox as if it were the only one, and tags that calls have in common do not matter.
-/

namespace HaloMesh

/-! ## Calls -/

/-- The regions of a rank, each under a number of its own. -/
abbrev Storage := Nat → Region

/-- One call of a collective by all ranks of a group. Calls can have values of different types, which
`A` lists. -/
inductive Call {ι : Type} (A : ι → Type) where
  /-- Rank 0 sends every rank its value. -/
  | oneToAll (i : ι) (packer : Packer (A i)) (tag : Nat) (value : Nat → A i)
  /-- Every rank sends its outgoing values to every rank. -/
  | allToAll (i : ι) (unpack : Bytes → Except CodecError (A i)) (tag : Nat) (out : Nat → Outgoing)
  /-- Every rank refreshes a field of one of its regions. -/
  | refresh (plan : Nat → CopyPlan) (slot : Nat → Nat) (info : Nat → FieldInfo)

/-- What a call returns on one rank. -/
inductive Reply {ι : Type} (A : ι → Type) where
  | value (i : ι) (result : Except Failure (A i))
  | values (i : ι) (result : Except Failure (List (Nat × A i)))
  | refreshed (result : Except Failure Unit)

namespace Call

variable {ι : Type} {A : ι → Type}

/-- What a rank does in a call. -/
def perform (me : Member) (storage : Storage) : Call A → Program (Reply A × Storage)
  | .oneToAll i packer tag value => do
    let result ← (HaloMesh.oneToAll packer me tag fun rank _ => .ok (value rank)).run
    return (.value i result, storage)
  | .allToAll i unpack tag out => do
    let result ← (HaloMesh.allToAll unpack me tag (out me.rank)).run
    return (.values i result, storage)
  | .refresh plan slot info => do
    let (result, region) ← ((plan me.rank).refresh (info me.rank)).run.run (storage (slot me.rank))
    return (.refreshed result, Function.update storage (slot me.rank) region)

/-- What a rank does in several calls, one after the other. -/
def performAll (me : Member) : List (Call A) → Storage → Program (List (Reply A) × Storage)
  | [], storage => return ([], storage)
  | call :: calls, storage => do
    let (reply, storage) ← call.perform me storage
    let (replies, storage) ← performAll me calls storage
    return (reply :: replies, storage)

/-- A group of `n` ranks can make a call: what is packed or announced can be allocated, and plans of
one coloring meet regions and fields that pass their checks. A field that passes them keeps the
element size it has in its region, which `sizes` lists. -/
inductive Admissible (n : Nat) (sizes : Nat → Nat → Nat → Nat) (storage : Nat → Storage) :
    Call A → Prop
  | oneToAll {i : ι} {packer : Packer (A i)} {tag : Nat} {value : Nat → A i}
      (hlength : ∀ r < n, ∀ data, packer.pack (value r) = .ok data → data.length ≤ Word.bufferLimit) :
      Admissible n sizes storage (.oneToAll i packer tag value)
  | allToAll {i : ι} {unpack : Bytes → Except CodecError (A i)} {tag : Nat} {out : Nat → Outgoing}
      (hcount : ∀ r < n, ∀ s < n, (out r).count s + 1 ≤ Word.bufferLimit) :
      Admissible n sizes storage (.allToAll i unpack tag out)
  | refresh {plan : Nat → CopyPlan} {slot : Nat → Nat} {info : Nat → FieldInfo} {spec : ColoringSpec}
      {coloring : Coloring} {space : Nat} (hof : Coloring.ofSpec spec = .ok coloring)
      (hcolors : coloring.colors = n)
      (hplan : ∀ r < n, CopyPlan.ofColoring coloring space r = .ok (plan r))
      (hregion : ∀ r < n, (plan r).checkRegion (storage r (slot r)) = .ok ())
      (hspace : ∀ r < n, (storage r (slot r)).checkSpace (info r) = .ok ())
      (hsize : ∀ r < n, (info r).typeSize = sizes r (slot r) (info r).field)
      (hroom : ∀ r < n, (storage r (slot r)).HasRoom (info r)) :
      Admissible n sizes storage (.refresh plan slot info)

/-! ## One call -/

/-- The regions of a rank after a call. -/
structure Follows (sizes : Nat → Nat → Nat) (before after : Storage) : Prop where
  sized : ∀ slot, (after slot).Sized (sizes slot)
  sameShape : ∀ slot, (before slot).SameShape (after slot)

theorem follows_update {sizes : Nat → Nat → Nat} {storage : Storage}
    (hsized : ∀ slot, (storage slot).Sized (sizes slot)) {slot : Nat} {region : Region}
    (hregion : region.Sized (sizes slot)) (hshape : (storage slot).SameShape region) :
    Follows sizes storage (Function.update storage slot region) := by
  refine ⟨fun other => ?_, fun other => ?_⟩
  · rw [Function.update_apply]
    split
    · rename_i heq
      rw [heq]
      exact hregion
    · exact hsized other
  · rw [Function.update_apply]
    split
    · rename_i heq
      rw [heq]
      exact hshape
    · exact .refl _

variable {n : Nat} {sizes : Nat → Nat → Nat → Nat} {storage storage' : Nat → Storage} {call : Call A}

theorem Admissible.of_sameShape (h : call.Admissible n sizes storage)
    (hshape : ∀ r < n, ∀ slot, (storage r slot).SameShape (storage' r slot)) :
    call.Admissible n sizes storage' := by
  cases h with
  | oneToAll hlength => exact .oneToAll hlength
  | allToAll hcount => exact .allToAll hcount
  | @refresh plan slot info _ _ _ hof hcolors hplan hregion hspace hsize hroom =>
    refine .refresh hof hcolors hplan (fun r hr => ?_) (fun r hr => ?_) hsize fun r hr => ?_
    · rw [← hregion r hr, CopyPlan.checkRegion, (hshape r hr (slot r)).color_eq,
        (hshape r hr (slot r)).length_eq]
      rfl
    · rw [← hspace r hr, Region.checkSpace, (hshape r hr (slot r)).indexSpace_eq]
      rfl
    · exact (hshape r hr (slot r)).hasRoom (hroom r hr)

/-- All ranks refresh a field with the plans of one coloring. -/
theorem refresh_completes {plan : Nat → CopyPlan} {slot : Nat → Nat} {info : Nat → FieldInfo}
    {spec : ColoringSpec} {coloring : Coloring} {space : Nat}
    (hof : Coloring.ofSpec spec = .ok coloring) (hcolors : coloring.colors = n)
    (hplan : ∀ r < n, CopyPlan.ofColoring coloring space r = .ok (plan r))
    (hregion : ∀ r < n, (plan r).checkRegion (storage r (slot r)) = .ok ())
    (hspace : ∀ r < n, (storage r (slot r)).checkSpace (info r) = .ok ())
    (hsized : ∀ r < n, ∀ slot, (storage r slot).Sized (sizes r slot))
    (hsize : ∀ r < n, (info r).typeSize = sizes r (slot r) (info r).field)
    (hroom : ∀ r < n, (storage r (slot r)).HasRoom (info r)) :
    ∃ (reply : Nat → Reply A) (storage' : Nat → Storage),
      Completes n (fun r => (Call.refresh plan slot info).perform ⟨r, n⟩ (storage r))
        (fun r => (reply r, storage' r)) ∧
      ∀ r < n, Follows (sizes r) (storage r) (storage' r) := by
  subst hcolors
  have haccepts : ∀ r < coloring.colors, (plan r).Accepts (info r) (storage r (slot r)) := by
    intro r hr
    refine CopyPlan.accepts_of_checks (hregion r hr) ?_
    apply (hsized r hr (slot r)).admits _ (hsize r hr) (hroom r hr)
    exact Region.indexSpace_eq_of_checkSpace (hspace r hr)
  obtain ⟨data, hcompletes, hdata⟩ := (CopyPlan.concert_of_ofColoring hof hplan).refresh_completes
    haccepts fun r hr => (hsized r hr (slot r)).length_stored (hsize r hr)
  refine ⟨_, _, hcompletes.bind (.done _ _), fun r hr => follows_update (hsized r hr) ?_ ?_⟩
  · apply ((hsized r hr (slot r)).ensured (hsize r hr)).setBytes
    rw [(Region.sameShape_ensured _ _).length_eq, ← hsize r hr, (haccepts r hr).length_eq]
    exact (hdata r hr).1
  · exact (Region.sameShape_ensured _ _).trans (Region.sameShape_setBytes _ _ _)

/-- All ranks make a call. -/
theorem Admissible.completes (h : call.Admissible n sizes storage) (hn : 24 * n ≤ Word.bufferLimit)
    (hsized : ∀ r < n, ∀ slot, (storage r slot).Sized (sizes r slot)) :
    ∃ (reply : Nat → Reply A) (storage' : Nat → Storage),
      Completes n (fun r => call.perform ⟨r, n⟩ (storage r)) (fun r => (reply r, storage' r)) ∧
      ∀ r < n, Follows (sizes r) (storage r) (storage' r) := by
  have hwords : 8 * n ≤ Word.bufferLimit := by omega
  have hsame : ∀ r < n, Follows (sizes r) (storage r) (storage r) := fun r hr =>
    ⟨hsized r hr, fun slot => .refl _⟩
  cases h with
  | @oneToAll i packer tag value hlength =>
    refine ⟨fun r => .value i (OneToAll.outcome packer value n r), storage, ?_, hsame⟩
    refine (oneToAll_completes tag ?_ (fun _ _ => rfl) fun r hr _ => hlength r hr).bind (.done n _)
    exact Word.lt_limit_of_le (by omega)
  | @allToAll i unpack tag out hcount =>
    refine ⟨fun r => .values i (AllToAll.outcome unpack out ⟨r, n⟩), storage, ?_, hsame⟩
    exact (allToAll_completes unpack tag hwords hcount).bind (.done n _)
  | @refresh plan slot info spec coloring space hof hcolors hplan hregion hspace hsize hroom =>
    exact refresh_completes hof hcolors hplan hregion hspace hsized hsize hroom

/-! ## All calls -/

/-- All ranks make several calls, each of which completes on its own. -/
theorem performAll_completes {calls : List (Call A)} (hn : 24 * n ≤ Word.bufferLimit)
    (hcalls : ∀ call ∈ calls, call.Admissible n sizes storage)
    (hsized : ∀ r < n, ∀ slot, (storage r slot).Sized (sizes r slot)) :
    ∃ (reply : Nat → Nat → Reply A) (after : Nat → Nat → Storage), after 0 = storage ∧
      (∀ i (h : i < calls.length),
        Completes n (fun r => calls[i].perform ⟨r, n⟩ (after i r))
          fun r => (reply i r, after (i + 1) r)) ∧
      Completes n (fun r => performAll ⟨r, n⟩ calls (storage r))
        fun r => ((List.range calls.length).map (reply · r), after calls.length r) := by
  induction calls generalizing storage with
  | nil =>
    refine ⟨fun _ _ => .refreshed (.ok ()), fun _ => storage, rfl, fun i h => ?_, .done n _⟩
    exact absurd h (Nat.not_lt_zero i)
  | cons call calls ih =>
    obtain ⟨first, mid, hfirst, hfollows⟩ := (hcalls call (by simp)).completes hn hsized
    obtain ⟨reply, after, hstart, halone, hall⟩ := ih
      (fun next hnext => (hcalls next (by simp [hnext])).of_sameShape
        fun r hr => (hfollows r hr).sameShape) fun r hr => (hfollows r hr).sized
    refine ⟨fun i => Nat.casesOn i first reply, fun i => Nat.casesOn i storage after, rfl, ?_, ?_⟩
    · intro i hi
      cases i with
      | zero =>
        simp only [List.getElem_cons_zero]
        rw [hstart]
        exact hfirst
      | succ i => exact halone i (Nat.lt_of_succ_lt_succ hi)
    · have hreplies : ∀ r, (List.range (call :: calls).length).map
          (fun i => (Nat.casesOn i first reply : Nat → Reply A) r) =
            first r :: (List.range calls.length).map (reply · r) := by
        intro r
        rw [List.length_cons, List.range_succ_eq_map, List.map_cons, List.map_map]
        rfl
      simp only [hreplies]
      exact hfirst.bind (hall.bind (.done n _))

end Call

open Call in
/-- However the ranks of a group interleave and drift apart, every call of a sequence returns on every
rank what it returns when the group makes that call alone, no rank is left waiting and no message is
left, also where calls use the same tags and where ranks fail. -/
theorem performAll_settles {ι : Type} {A : ι → Type} {n : Nat} {members : List Member}
    (hmembers : Member.world n = .ok members) {sizes : Nat → Nat → Nat → Nat}
    {storage : Nat → Storage} (hsized : ∀ r < n, ∀ slot, (storage r slot).Sized (sizes r slot))
    {calls : List (Call A)} (hcalls : ∀ call ∈ calls, call.Admissible n sizes storage) :
    ∃ (reply : Nat → Nat → Reply A) (after : Nat → Nat → Storage), after 0 = storage ∧
      (∀ i (h : i < calls.length),
        (Group.start (members.map fun me => calls[i].perform me (after i me.rank))).Settles
          ((List.range n).map fun r => (reply i r, after (i + 1) r))) ∧
      (Group.start (members.map fun me => performAll me calls (storage me.rank))).Settles
        ((List.range n).map fun r =>
          ((List.range calls.length).map (reply · r), after calls.length r)) := by
  obtain ⟨hn, rfl⟩ := Member.world_eq_ok_iff.mp hmembers
  obtain ⟨reply, after, hstart, halone, hall⟩ := performAll_completes hn hcalls hsized
  refine ⟨reply, after, hstart, fun i h => ?_, ?_⟩
  · rw [Member.all, List.map_map]
    exact (halone i h).settles
  · rw [Member.all, List.map_map]
    exact hall.settles

/-- Two ranks make calls on overlapping tags, in two of which a value cannot be packed. -/
theorem performAll_settles_on_ring :
    let spec : ColoringSpec := ⟨[⟨[2], [4], [1], [0], [true]⟩]⟩
    let storage : Nat → Storage := fun r _ => .new 0 r 4
    let sizes : Nat → Nat → Nat → Nat := fun _ _ _ => 1
    let value : Nat → Item := fun r => if r = 0 then .numbers [5] else .refusing "busy"
    let offers : Nat → Nat → Offer Item := fun s _ => ⟨20, value s⟩
    ∃ coloring, Coloring.ofSpec spec = .ok coloring ∧ ∃ plan : Nat → CopyPlan,
      let calls : List (Call fun _ : Unit => Item) :=
        [.allToAll () Item.packer.unpack CopyPlan.firstTag fun s => Offer.outgoing Item.packer (offers s),
          .oneToAll () Item.packer (CopyPlan.firstTag + 1) value,
          .refresh plan (fun _ => 0) fun _ => ⟨7, 0, 1⟩,
          .refresh plan (fun _ => 1) fun _ => ⟨7, 0, 1⟩]
      Member.world 2 = .ok (Member.all 2) ∧
      (∀ r < 2, ∀ slot, (storage r slot).Sized (sizes r slot)) ∧
      (∀ call ∈ calls, call.Admissible 2 sizes storage) ∧
      ∃ (reply : Nat → Nat → Reply fun _ : Unit => Item) (after : Nat → Nat → Storage),
        after 0 = storage ∧
        (∀ i (h : i < calls.length),
          (Group.start ((Member.all 2).map fun me => calls[i].perform me (after i me.rank))).Settles
            ((List.range 2).map fun r => (reply i r, after (i + 1) r))) ∧
        (Group.start ((Member.all 2).map fun me => Call.performAll me calls (storage me.rank))).Settles
          ((List.range 2).map fun r =>
            ((List.range calls.length).map (reply · r), after calls.length r)) := by
  intro spec storage sizes value offers
  have hrep : spec.Representable := by decide
  have hof : Coloring.ofSpec spec = .ok _ := rfl
  obtain ⟨d, parts, h⟩ := Coloring.exists_hasSpace hrep hof (s := 0) (by decide)
  refine ⟨_, hof, CopyPlan.plansOf 0 d parts, ?_⟩
  intro calls
  have hsized : ∀ r < 2, ∀ slot, (storage r slot).Sized (sizes r slot) := by
    intro r _ slot field buffer hbuffer
    cases hbuffer
  have hlength : ∀ r < 2, ∀ data, Item.packer.pack (value r) = .ok data →
      data.length ≤ Word.bufferLimit := by
    have hshort : ∀ r < 2, (Item.packer.pack (value r)).toOption.all fun data =>
        decide (data.length ≤ Word.bufferLimit) := by decide
    intro r hr data hpack
    have h := hshort r hr
    rw [hpack] at h
    exact of_decide_eq_true h
  have hcolors : parts.length = 2 := h.colors_eq
  have hslots : ∀ part ∈ parts, part.extents.prod = 4 := by
    have hparts := h.records
    cases hparts
    decide
  have hrefresh : ∀ slot : Nat → Nat, (Call.refresh (CopyPlan.plansOf 0 d parts) slot
      fun _ => ⟨7, 0, 1⟩ : Call fun _ : Unit => Item).Admissible 2 sizes storage := by
    intro slot
    have hroom : Region.chunked (4 * 1) ≤ Word.bufferLimit := by decide
    refine .refresh hof rfl (fun r hr => CopyPlan.ofColoring_eq_plansOf h (hcolors ▸ hr))
      (fun r hr => ?_) (fun _ _ => rfl) (fun _ _ => rfl) fun _ _ => hroom
    have hcolor : r < parts.length := hcolors ▸ hr
    apply if_pos
    refine ⟨rfl, ?_⟩
    rw [CopyPlan.slots_plansOf hcolor]
    exact (hslots _ (List.getElem_mem hcolor)).symm
  have hcalls : ∀ call ∈ calls, call.Admissible 2 sizes storage := by
    intro call hcall
    simp only [calls, List.mem_cons, List.not_mem_nil, or_false] at hcall
    rcases hcall with rfl | rfl | rfl | rfl
    · exact .allToAll (by decide)
    · exact .oneToAll hlength
    · exact hrefresh _
    · exact hrefresh _
  exact ⟨rfl, hsized, hcalls, performAll_settles rfl hsized hcalls⟩

end HaloMesh
