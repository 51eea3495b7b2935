-- SUMMARY: What an exchange makes of the storage of a color, given what each of its sources replies.
import HaloMesh.Proofs.CopyPlan.Posting
import Mathlib.Data.List.Flatten

/-!
# Storage after an exchange

An exchange changes storage in two loops: it copies the runs that wrap onto the color itself, and then
deals with one reply after the other. The runs of a plan lie apart, so neither loop undoes what was done
before. Each source has either written all of its runs or none, and no slot outside of all runs changes.

This holds wherever the replies come from. In a group they are the messages of the other ranks, each cut
to the length that was posted for it, and an exchange ends with an error at worst.
-/

namespace HaloMesh

/-! ## Runs that lie apart -/

namespace Run

theorem Apart.not_mem {r s : Run} (h : r.Apart s) {slot : Nat} (hslot : slot ∈ r.dests) :
    slot ∉ s.dests := by
  rw [mem_dests] at hslot ⊢
  unfold Apart at h
  omega

theorem not_mem_dests_of_apart {runs : List Run} {r : Run} (h : ∀ s ∈ runs, r.Apart s) {slot : Nat}
    (hslot : slot ∈ r.dests) : slot ∉ runs.flatMap dests := by
  rw [List.mem_flatMap]
  rintro ⟨s, hs, hmem⟩
  exact (h s hs).not_mem hslot hmem

/-- Values that agree on a run give the same bytes. -/
theorem given_congr {v w : Nat → Bytes} {r : Run} (h : ∀ slot ∈ r.dests, v slot = w slot) :
    r.given v = r.given w := by
  refine List.flatMap_congr fun i hi => h _ ?_
  exact List.mem_map.mpr ⟨i, hi, rfl⟩

theorem flatMap_given_congr {v w : Nat → Bytes} {runs : List Run}
    (h : ∀ slot ∈ runs.flatMap dests, v slot = w slot) :
    runs.flatMap (given v) = runs.flatMap (given w) :=
  List.flatMap_congr fun r hr => given_congr fun slot hslot =>
    h slot (List.mem_flatMap.mpr ⟨r, hr, hslot⟩)

variable {size slots : Nat} {data : Bytes} {f v : Nat → Bytes} {runs : List Run}

/-! ## One message -/

/-- Bytes as the values of a run. -/
theorem given_element {r : Run} {values : Bytes} (hlength : values.length = r.length * size) :
    r.given (fun slot => values.element size (slot - r.dest)) = values := by
  have hvalues := Bytes.take_drop_elements size values 0 r.length
  rw [Nat.zero_mul, List.drop_zero, List.take_of_length_le (Nat.le_of_eq hlength)] at hvalues
  refine Eq.trans (List.flatMap_congr fun i _ => ?_) hvalues.symm
  exact congrArg (values.element size) (by omega)

/-- A message of the right length holds some values of the slots of runs that lie apart. -/
theorem exists_given (happart : runs.Pairwise Apart) {values : Bytes}
    (hlength : values.length = totalLength runs * size) :
    ∃ v : Nat → Bytes, runs.flatMap (given v) = values ∧ ∀ slot, (v slot).length = size := by
  induction runs generalizing values with
  | nil =>
    have hnil : values = [] := by
      rw [totalLength, List.foldr_nil, Nat.zero_mul] at hlength
      exact List.eq_nil_of_length_eq_zero hlength
    exact ⟨fun _ => Bytes.zeros size, hnil.symm, fun _ => List.length_replicate⟩
  | cons r runs ih =>
    obtain ⟨hr, happart⟩ := List.pairwise_cons.mp happart
    have htotal : totalLength (r :: runs) = r.length + totalLength runs := rfl
    rw [htotal, Nat.add_mul] at hlength
    obtain ⟨rest, hrest, hrestLength⟩ := @ih happart (values.drop (r.length * size)) (by
      rw [List.length_drop, hlength, Nat.add_sub_cancel_left])
    let first : Bytes := values.take (r.length * size)
    have hfirst : first.length = r.length * size :=
      List.length_take_of_le (hlength ▸ Nat.le_add_right _ _)
    let v : Nat → Bytes := fun slot =>
      if slot ∈ r.dests then first.element size (slot - r.dest) else rest slot
    have hin : ∀ slot ∈ r.dests, v slot = first.element size (slot - r.dest) := fun _ hslot =>
      if_pos hslot
    have hout : ∀ slot ∉ r.dests, v slot = rest slot := fun _ hslot => if_neg hslot
    refine ⟨v, ?_, fun slot => ?_⟩
    · rw [List.flatMap_cons, given_congr hin, given_element hfirst,
        flatMap_given_congr fun slot hslot => hout slot fun hmem =>
          not_mem_dests_of_apart hr hmem hslot, hrest, List.take_append_drop]
    · by_cases hslot : slot ∈ r.dests
      · rw [hin slot hslot]
        rw [mem_dests] at hslot
        exact Bytes.length_element hfirst (by omega)
      · rw [hout slot hslot]
        exact hrestLength slot

/-- A message of the right length is written to its runs, and no other slot changes. -/
theorem exists_scatter (hdata : Bytes.Shows size slots data f)
    (hstop : ∀ r ∈ runs, r.dest + r.length ≤ slots) (happart : runs.Pairwise Apart) {values : Bytes}
    (hlength : values.length = totalLength runs * size) :
    ∃ g, Bytes.Shows size slots (scatter size runs values data) g ∧ runs.flatMap (given g) = values ∧
      ∀ slot ∉ runs.flatMap dests, g slot = f slot := by
  obtain ⟨v, hvalues, hv⟩ := exists_given happart hlength
  have hunwritten : Bytes.Shows size slots data (Bytes.patch v f []) := hdata
  have hshows := shows_scatter hunwritten hstop fun slot _ => hv slot
  rw [hvalues, List.nil_append] at hshows
  refine ⟨_, hshows, ?_, fun slot hslot => if_neg hslot⟩
  exact (flatMap_given_congr fun slot hslot => if_pos hslot).trans hvalues

/-- Equal bytes that are cut at the same places are equal piece by piece. -/
theorem eq_of_flatMap_range_eq {n : Nat} {v f : Nat → Bytes} (hv : ∀ i < n, (v i).length = size)
    (hf : ∀ i < n, (f i).length = size) (h : (List.range n).flatMap v = (List.range n).flatMap f) :
    ∀ i < n, v i = f i := by
  induction n with
  | zero => exact fun i hi => absurd hi (Nat.not_lt_zero i)
  | succ n ih =>
    rw [List.range_succ, List.flatMap_append, List.flatMap_append, List.flatMap_singleton,
      List.flatMap_singleton] at h
    obtain ⟨hinit, hlast⟩ := List.append_inj' h
      ((hv n (Nat.lt_succ_self n)).trans (hf n (Nat.lt_succ_self n)).symm)
    intro i hi
    rcases Nat.lt_succ_iff_lt_or_eq.mp hi with hi | rfl
    · exact ih (fun i hi => hv i (Nat.lt_succ_of_lt hi)) (fun i hi => hf i (Nat.lt_succ_of_lt hi))
        hinit i hi
    · exact hlast

/-- The slots of runs take the same values from a message as the slots that it was gathered from. -/
theorem dest_eq_src_of_message {v f : Nat → Bytes}
    (hv : ∀ r ∈ runs, ∀ i < r.length, (v (r.dest + i)).length = size)
    (hf : ∀ r ∈ runs, ∀ i < r.length, (f (r.src + i)).length = size)
    (h : runs.flatMap (given v) = runs.flatMap (taken f)) :
    ∀ r ∈ runs, ∀ fill ∈ r.fills, v fill.dest = f fill.src := by
  induction runs with
  | nil => exact fun r hr => absurd hr List.not_mem_nil
  | cons r runs ih =>
    rw [List.flatMap_cons, List.flatMap_cons] at h
    have hgiven : (r.given v).length = r.length * size := length_values fun i hi => hv r (by simp) i hi
    have htaken : (r.taken f).length = r.length * size := length_values fun i hi => hf r (by simp) i hi
    obtain ⟨hhead, htail⟩ := List.append_inj h (hgiven.trans htaken.symm)
    have hpieces := eq_of_flatMap_range_eq (fun i hi => hv r (by simp) i hi)
      (fun i hi => hf r (by simp) i hi) hhead
    intro s hs fill hfill
    rcases List.mem_cons.mp hs with rfl | hs
    · obtain ⟨i, hi, rfl⟩ := List.mem_map.mp hfill
      exact hpieces i (List.mem_range.mp hi)
    · exact ih (fun r hr => hv r (by simp [hr])) (fun r hr => hf r (by simp [hr])) htail s hs fill hfill

/-! ## Copies within the storage -/

/-- Copying a run within the storage fills its slots, and no other slot changes. -/
theorem exists_copyWithin_shows {r : Run} (hdata : Bytes.Shows size slots data f)
    (hsrc : r.src + r.length ≤ slots) (hdest : r.dest + r.length ≤ slots) (hslots : slots < Word.limit)
    (hbytes : slots * size ≤ Word.bufferLimit) :
    ∃ data' g, copyWithin size data r = .ok data' ∧ Bytes.Shows size slots data' g ∧
      (∀ fill ∈ r.fills, g fill.dest = f fill.src) ∧ ∀ slot ∉ r.dests, g slot = f slot := by
  have hf : ∀ slot < slots, (f slot).length = size := fun slot hslot =>
    hdata.element_eq slot hslot ▸ Bytes.length_element hdata.length_eq hslot
  let v : Nat → Bytes := fun slot => if slot ∈ r.dests then f (r.src + (slot - r.dest)) else f slot
  have hfill : ∀ fill ∈ r.fills, v fill.dest = f fill.src := by
    intro fill hfill
    have hmem := dest_mem_dests hfill
    obtain ⟨i, -, rfl⟩ := List.mem_map.mp hfill
    exact (if_pos hmem).trans (by rw [Nat.add_sub_cancel_left])
  have hv : ∀ slot < slots, (v slot).length = size := by
    intro slot hslot
    by_cases hmem : slot ∈ r.dests
    · rw [mem_dests] at hmem
      exact (congrArg List.length (if_pos (mem_dests.mpr hmem))).trans (hf _ (by omega))
    · exact (congrArg List.length (if_neg hmem)).trans (hf slot hslot)
  have hunwritten : Bytes.Shows size slots data (Bytes.patch v f []) := hdata
  obtain ⟨data', hcopy, hshows⟩ := copyWithin_eq_ok hunwritten hsrc hdest hslots hbytes hv
    fun fill hmem => (hfill fill hmem).symm
  refine ⟨data', _, hcopy, hshows, fun fill hmem => ?_, fun slot hslot => if_neg hslot⟩
  exact (if_pos (dest_mem_dests hmem)).trans (hfill fill hmem)

/-- Runs are copied one after the other. If none takes its values from a slot that another one fills,
all slots get the values that were there at first. -/
theorem exists_foldlM_copyWithin (hdata : Bytes.Shows size slots data f)
    (hbounds : ∀ r ∈ runs, r.src + r.length ≤ slots ∧ r.dest + r.length ≤ slots)
    (happart : runs.Pairwise Apart) (hslots : slots < Word.limit)
    (hbytes : slots * size ≤ Word.bufferLimit) :
    ∃ data' g, runs.foldlM (copyWithin size) data = .ok data' ∧ Bytes.Shows size slots data' g ∧
      ((∀ r ∈ runs, ∀ fill ∈ r.fills, fill.src ∉ runs.flatMap dests) →
        ∀ r ∈ runs, ∀ fill ∈ r.fills, g fill.dest = f fill.src) ∧
      ∀ slot ∉ runs.flatMap dests, g slot = f slot := by
  induction runs generalizing data f with
  | nil => exact ⟨data, f, rfl, hdata, fun _ r hr => absurd hr List.not_mem_nil, fun _ _ => rfl⟩
  | cons r runs ih =>
    obtain ⟨hr, happart⟩ := List.pairwise_cons.mp happart
    obtain ⟨hsrc, hdest⟩ := hbounds r (by simp)
    obtain ⟨mid, g, hcopy, hmid, hfilled, hframe⟩ :=
      exists_copyWithin_shows hdata hsrc hdest hslots hbytes
    obtain ⟨data', g', hcopies, hshows, hrest, hkept⟩ :=
      ih hmid (fun s hs => hbounds s (by simp [hs])) happart
    refine ⟨data', g', ?_, hshows, fun hsources s hs fill hfill => ?_, fun slot hslot => ?_⟩
    · rw [List.foldlM_cons, hcopy]
      exact hcopies
    · rcases List.mem_cons.mp hs with rfl | hs
      · rw [hkept _ (not_mem_dests_of_apart hr (dest_mem_dests hfill))]
        exact hfilled fill hfill
      · have hoff := hsources s (by simp [hs]) fill hfill
        rw [List.flatMap_cons, List.mem_append, not_or] at hoff
        rw [hrest (fun t ht fill hfill => ?_) s hs fill hfill, hframe _ hoff.1]
        have hoff := hsources t (by simp [ht]) fill hfill
        rw [List.flatMap_cons, List.mem_append, not_or] at hoff
        exact hoff.2
    · rw [List.flatMap_cons, List.mem_append, not_or] at hslot
      rw [hkept slot hslot.2, hframe slot hslot.1]

end Run
namespace CopyPlan

/-! ## Replies -/

/-- A source with its runs, and what it replied. -/
abbrev Source := (Nat × List Run) × Option Bytes

/-- The error that the reply of a source causes, unless it is a message of the expected length. -/
def lack? (size : Nat) (source : Source) : Option MeshError :=
  match messageFrom source.1.1 (Run.totalLength source.1.2 * size) source.2 with
  | .ok _ => none
  | .error error => some error

/-- Deal with the reply of a source, given the first error so far and the storage. -/
def absorb (size : Nat) (state : Option MeshError × Bytes) (source : Source) :
    Option MeshError × Bytes :=
  match messageFrom source.1.1 (Run.totalLength source.1.2 * size) source.2 with
  | .ok message => (state.1, Run.scatter size source.1.2 message state.2)
  | .error error => (firstError state.1 error, state.2)

/-- The runs of a source got the values of its message, or stayed as they were if it did not reply as
expected. -/
structure Absorbed (size : Nat) (source : Source) (f g : Nat → Bytes) : Prop where
  written : ∀ message, source.2 = some message →
    message.length = Run.totalLength source.1.2 * size → source.1.2.flatMap (Run.given g) = message
  untouched : lack? size source ≠ none → ∀ slot ∈ source.1.2.flatMap Run.dests, g slot = f slot

section
variable {size slots : Nat} {f g : Nat → Bytes} {state : Option MeshError × Bytes} {source : Source}
  {sources : List Source}

theorem lack?_eq_none_iff : lack? size source = none ↔ ∃ message, source.2 = some message ∧
    message.length = Run.totalLength source.1.2 * size := by
  obtain ⟨entry, reply⟩ := source
  rw [lack?]
  cases reply with
  | none => exact ⟨nofun, nofun⟩
  | some message =>
    by_cases hlength : message.length = Run.totalLength entry.2 * size
    · have hmessage : messageFrom entry.1 (Run.totalLength entry.2 * size) (some message) = .ok message :=
        messageFrom_eq_ok_iff.mpr ⟨hlength, rfl⟩
      simp only [hmessage]
      exact iff_of_true trivial ⟨message, rfl, hlength⟩
    · cases hmessage : messageFrom entry.1 (Run.totalLength entry.2 * size) (some message) with
      | ok values => exact absurd (messageFrom_eq_ok_iff.mp hmessage).1 hlength
      | error error =>
        refine iff_of_false nofun ?_
        rintro ⟨_, heq, hlength'⟩
        cases heq
        exact hlength hlength'

theorem fst_absorb (size : Nat) (state : Option MeshError × Bytes) (source : Source) :
    (absorb size state source).1 = state.1.or (lack? size source) := by
  rw [absorb, lack?]
  cases messageFrom source.1.1 (Run.totalLength source.1.2 * size) source.2 with
  | ok message => exact Option.or_none.symm
  | error error => rfl

/-- The first error is that of the first source that did not reply as expected. -/
theorem fst_foldl_absorb (size : Nat) (state : Option MeshError × Bytes) (sources : List Source) :
    (sources.foldl (absorb size) state).1 = state.1.or (sources.findSome? (lack? size)) := by
  induction sources generalizing state with
  | nil => exact Option.or_none.symm
  | cons source sources ih =>
    rw [List.foldl_cons, ih, fst_absorb, List.findSome?_cons, Option.or_assoc]
    cases lack? size source with
    | none => rfl
    | some error => rfl

theorem exists_absorb (hdata : Bytes.Shows size slots state.2 f)
    (hstop : ∀ r ∈ source.1.2, r.dest + r.length ≤ slots) (happart : source.1.2.Pairwise Run.Apart) :
    ∃ g, Bytes.Shows size slots (absorb size state source).2 g ∧ Absorbed size source f g ∧
      ∀ slot ∉ source.1.2.flatMap Run.dests, g slot = f slot := by
  obtain ⟨⟨key, runs⟩, reply⟩ := source
  rw [absorb]
  cases hmessage : messageFrom key (Run.totalLength runs * size) reply with
  | error error =>
    refine ⟨f, hdata, ⟨fun message hreply hlength => ?_, fun _ _ _ => rfl⟩, fun _ _ => rfl⟩
    cases hreply
    rw [messageFrom_eq_ok_iff.mpr ⟨hlength, rfl⟩] at hmessage
    cases hmessage
  | ok message =>
    obtain rfl | ⟨values, rfl⟩ : reply = none ∨ ∃ values, reply = some values := by
      cases reply with
      | none => exact .inl rfl
      | some values => exact .inr ⟨values, rfl⟩
    · cases hmessage
    · obtain ⟨hlength, rfl⟩ := messageFrom_eq_ok_iff.mp hmessage
      obtain ⟨g, hshows, hgiven, hkept⟩ := Run.exists_scatter hdata hstop happart hlength
      refine ⟨g, hshows, ⟨fun other hother _ => ?_, fun hlack => ?_⟩, hkept⟩
      · cases hother
        exact hgiven
      · exact absurd (lack?_eq_none_iff.mpr ⟨_, rfl, hlength⟩) hlack

/-- Each source has written all of its runs or none, whatever the other ones replied. -/
theorem exists_foldl_absorb (hdata : Bytes.Shows size slots state.2 f)
    (hstop : ∀ source ∈ sources, ∀ r ∈ source.1.2, r.dest + r.length ≤ slots)
    (happart : (sources.flatMap (·.1.2)).Pairwise Run.Apart) :
    ∃ g, Bytes.Shows size slots (sources.foldl (absorb size) state).2 g ∧
      (∀ source ∈ sources, Absorbed size source f g) ∧
      ∀ slot ∉ (sources.flatMap (·.1.2)).flatMap Run.dests, g slot = f slot := by
  induction sources generalizing state f with
  | nil => exact ⟨f, hdata, fun _ hmem => absurd hmem List.not_mem_nil, fun _ _ => rfl⟩
  | cons source sources ih =>
    rw [List.flatMap_cons, List.pairwise_append] at happart
    obtain ⟨hown, hrest, hcross⟩ := happart
    obtain ⟨mid, hmid, habsorbed, hkept⟩ := exists_absorb hdata (hstop source (by simp)) hown
    obtain ⟨g, hshows, hlater, hframe⟩ :=
      ih hmid (fun other hother => hstop other (by simp [hother])) hrest
    -- The slots of the first source are not among those of the others.
    have hfirst : ∀ slot ∈ source.1.2.flatMap Run.dests, g slot = mid slot := by
      intro slot hslot
      obtain ⟨r, hr, hslot⟩ := List.mem_flatMap.mp hslot
      exact hframe slot (Run.not_mem_dests_of_apart (hcross r hr) hslot)
    refine ⟨g, hshows, fun other hother => ?_, fun slot hslot => ?_⟩
    · rcases List.mem_cons.mp hother with rfl | hother
      · refine ⟨fun message hreply hlength => ?_, fun hlack slot hslot => ?_⟩
        · rw [Run.flatMap_given_congr hfirst]
          exact habsorbed.written message hreply hlength
        · rw [hfirst slot hslot]
          exact habsorbed.untouched hlack slot hslot
      · refine ⟨(hlater other hother).written, fun hlack slot hslot => ?_⟩
        rw [(hlater other hother).untouched hlack slot hslot]
        obtain ⟨r, hr, hslot⟩ := List.mem_flatMap.mp hslot
        refine hkept slot (Run.not_mem_dests_of_apart (fun s hs => ?_) hslot)
        exact (hcross s hs r (List.mem_flatMap.mpr ⟨other, hother, hr⟩)).symm
    · rw [List.flatMap_cons, List.flatMap_append, List.mem_append, not_or] at hslot
      rw [hframe slot hslot.2, hkept slot hslot.1]

end

/-! ## The whole exchange -/

/-- Copying the runs of the color itself takes no communication. -/
theorem copyOwn_eq_done {runs : List Run} {size : Nat} {data mid : Bytes}
    (hcopies : runs.foldlM (Run.copyWithin size) data = .ok mid) :
    (runs.forM (copyOwn size)).run.run data = .done (.ok (), mid) := by
  induction runs generalizing data with
  | nil =>
    cases hcopies
    rfl
  | cons r runs ih =>
    rw [List.foldlM_cons, Checked.bind_eq_ok_iff] at hcopies
    obtain ⟨next, hcopy, hcopies⟩ := hcopies
    have hset : ∀ x : Except Fault Bytes, x = .ok next →
        (do set (← (liftM x : Exchange Bytes)) : Exchange Unit).run.run data = .done (.ok (), next) := by
      rintro _ rfl
      rfl
    have hstep : (copyOwn size r).run.run data = .done (.ok (), next) := hset _ hcopy
    rw [List.forM_eq_forM, List.forM_cons]
    exact (CommState.run_bind_of_done hstep _).trans (ih hcopies)

/-- What an exchange makes of the values of a color, given what each of its sources replies. -/
structure Exchanged (p : CopyPlan) (size : Nat) (replies : List (Option Bytes)) (f g : Nat → Bytes) :
    Prop where
  received : ∀ source ∈ p.remoteSources.zip replies, Absorbed size source f g
  /-- Runs that wrap onto the color itself. -/
  copied : ∀ r ∈ p.recv.runsOf p.color, ∀ fill ∈ r.fills, g fill.dest = f fill.src
  kept : ∀ slot < p.slots, slot ∉ p.runs.flatMap Run.dests → g slot = f slot

section
variable {p : CopyPlan} {n size : Nat} {data : Bytes}

theorem mem_runs_of_mem_own {r : Run} (hr : r ∈ p.recv.runsOf p.color) : r ∈ p.runs := by
  obtain ⟨runs, hruns, hmem⟩ := RunTable.mem_of_mem_runsOf hr
  exact List.mem_flatMap.mpr ⟨_, hruns, hmem⟩

/-- A run that wraps onto the color itself lies apart from those of the other colors. -/
theorem Sound.apart_own (h : p.Sound n) {r s : Run} (hr : r ∈ p.recv.runsOf p.color)
    {entry : Nat × List Run} (hentry : entry ∈ p.remoteSources) (hs : s ∈ entry.2) : r.Apart s := by
  obtain ⟨hentry, hne⟩ := List.mem_filter.mp hentry
  have hown : r.source = p.color := by
    rw [← h.filter_runs] at hr
    exact beq_iff_eq.mp (List.mem_filter.mp hr).2
  have hremote : s.source = entry.1 := by
    have hlookup := RunTable.lookup_of_mem (h.sources_increasing.imp Nat.ne_of_lt) hentry
    have hmem : s ∈ p.recv.runsOf entry.1 := by rwa [RunTable.runsOf, hlookup]
    rw [← h.filter_runs] at hmem
    exact beq_iff_eq.mp (List.mem_filter.mp hmem).2
  have : Std.Symm Run.Apart := ⟨fun _ _ => Run.Apart.symm⟩
  refine h.apart.forall (mem_runs_of_mem_own hr) (List.mem_flatMap.mpr ⟨entry, hentry, hs⟩) ?_
  rintro rfl
  exact bne_iff_ne.mp hne (hremote.symm.trans hown)

/-- The sources are all of those that a color waits for if each of them replies. -/
theorem flatMap_runs_zip {replies : List (Option Bytes)}
    (hreplies : replies.length = p.remoteSources.length) :
    (p.remoteSources.zip replies).flatMap (·.1.2) = p.remoteSources.flatMap (·.2) := by
  have hfst : (p.remoteSources.zip replies).map Prod.fst = p.remoteSources :=
    List.map_fst_zip (Nat.le_of_eq hreplies.symm)
  conv_rhs => rw [← hfst, List.flatMap_map]

/-- Only the values of slots in storage matter. -/
theorem Exchanged.of_shows (h : p.Sound n) {replies : List (Option Bytes)} {f g : Nat → Bytes}
    (hexchanged : p.Exchanged size replies f g) {data' : Bytes}
    (hshows : Bytes.Shows size p.slots data' g) :
    p.Exchanged size replies f (data'.element size) where
  received source hsource := by
    have hentry := List.mem_of_mem_filter (List.of_mem_zip hsource).1
    have hvalues : ∀ slot ∈ source.1.2.flatMap Run.dests, data'.element size slot = g slot := by
      intro slot hslot
      obtain ⟨r, hr, hslot⟩ := List.mem_flatMap.mp hslot
      refine hshows.element_eq slot (Nat.lt_of_lt_of_le (Run.mem_dests.mp hslot).2 ?_)
      exact h.dest_stop_le _ hentry r hr
    refine ⟨fun message hreply hlength => ?_, fun hlack slot hslot => ?_⟩
    · rw [Run.flatMap_given_congr hvalues]
      exact (hexchanged.received source hsource).written message hreply hlength
    · rw [hvalues slot hslot]
      exact (hexchanged.received source hsource).untouched hlack slot hslot
  copied r hr fill hfill := by
    have hslot := (Run.mem_dests.mp (Run.dest_mem_dests hfill)).2
    rw [hshows.element_eq _ (Nat.lt_of_lt_of_le hslot (h.bounds_of_own hr).2)]
    exact hexchanged.copied r hr fill hfill
  kept slot hslot hmem := by
    rw [hshows.element_eq slot hslot]
    exact hexchanged.kept slot hslot hmem

/-- Both loops of an exchange, one after the other. -/
theorem Sound.exists_exchanged (h : p.Sound n) (hbytes : p.slots * size ≤ Word.bufferLimit)
    (hdata : data.length = p.slots * size) :
    ∃ mid, (p.recv.runsOf p.color).foldlM (Run.copyWithin size) data = .ok mid ∧
      ∀ replies : List (Option Bytes), replies.length = p.remoteSources.length →
        ((p.remoteSources.zip replies).foldl (absorb size) (none, mid)).2.length = p.slots * size ∧
        p.Exchanged size replies (data.element size)
          (((p.remoteSources.zip replies).foldl (absorb size) (none, mid)).2.element size) := by
  have hown : (p.recv.runsOf p.color).Pairwise Run.Apart := by
    rw [← h.filter_runs]
    exact h.apart.filter _
  have hremote : (p.remoteSources.flatMap (·.2)).Pairwise Run.Apart :=
    h.apart.sublist (List.filter_sublist.flatMap _)
  have hsources : ∀ r ∈ p.recv.runsOf p.color, ∀ fill ∈ r.fills,
      fill.src ∉ (p.recv.runsOf p.color).flatMap Run.dests := by
    intro r hr fill hfill hmem
    obtain ⟨s, hs, hmem⟩ := List.mem_flatMap.mp hmem
    exact h.own_kept r hr fill hfill (List.mem_flatMap.mpr ⟨s, mem_runs_of_mem_own hs, hmem⟩)
  obtain ⟨mid, f, hcopies, hmid, hcopied, hframe⟩ := Run.exists_foldlM_copyWithin
    (Bytes.shows_element hdata) (fun r hr => h.bounds_of_own hr) hown h.slots_lt hbytes
  refine ⟨mid, hcopies, fun replies hreplies => ?_⟩
  have hentry : ∀ source ∈ p.remoteSources.zip replies, source.1 ∈ p.remoteSources :=
    fun source hsource => (List.of_mem_zip hsource).1
  obtain ⟨g, hshows, habsorbed, hkept⟩ := @exists_foldl_absorb size p.slots f (none, mid)
    (p.remoteSources.zip replies) hmid
    (fun source hsource => h.dest_stop_le _ (List.mem_of_mem_filter (hentry source hsource)))
    ((flatMap_runs_zip hreplies).symm ▸ hremote)
  rw [flatMap_runs_zip hreplies] at hkept
  refine ⟨hshows.length_eq, .of_shows h ⟨fun source hsource => ?_,
    fun r hr fill hfill => ?_, fun slot _ hslot => ?_⟩ hshows⟩
  · -- Before the first reply the slots of the source are as they were at first.
    refine ⟨(habsorbed source hsource).written, fun hlack slot hslot => ?_⟩
    rw [(habsorbed source hsource).untouched hlack slot hslot]
    obtain ⟨s, hs, hslot⟩ := List.mem_flatMap.mp hslot
    refine hframe slot (Run.not_mem_dests_of_apart (fun r hr => ?_) hslot)
    exact (h.apart_own hr (hentry source hsource) hs).symm
  · have hslot : fill.dest ∉ (p.remoteSources.flatMap (·.2)).flatMap Run.dests := by
      refine Run.not_mem_dests_of_apart (fun s hs => ?_) (Run.dest_mem_dests hfill)
      obtain ⟨entry, hentry, hs⟩ := List.mem_flatMap.mp hs
      exact h.apart_own hr hentry hs
    rw [hkept _ hslot]
    exact hcopied hsources r hr fill hfill
  · have hslots : ∀ runs : List Run, (∀ r ∈ runs, r ∈ p.runs) → slot ∉ runs.flatMap Run.dests := by
      intro runs hruns hmem
      obtain ⟨r, hr, hmem⟩ := List.mem_flatMap.mp hmem
      exact hslot (List.mem_flatMap.mpr ⟨r, hruns r hr, hmem⟩)
    rw [hkept slot (hslots _ fun r hr => ?_), hframe slot (hslots _ fun r hr => mem_runs_of_mem_own hr)]
    obtain ⟨entry, hentry, hr⟩ := List.mem_flatMap.mp hr
    exact List.mem_flatMap.mpr ⟨entry, List.mem_of_mem_filter hentry, hr⟩

end

/-! ## Exchanges of a group -/

/-- What an exchange returns, given its first error. -/
def ending (error : Option MeshError) : Except Failure Unit :=
  error.elim (.ok ()) fun cause => .error (.reported cause)

theorem ending_eq_ok_iff {error : Option MeshError} : ending error = .ok () ↔ error = none := by
  cases error with
  | none => exact iff_of_true rfl rfl
  | some cause =>
    refine iff_of_false (fun h => ?_) (Option.some_ne_none cause)
    cases h

/-- The replies of the sources in a group, where a message is cut to the length that was posted. -/
def repliesWith (p : CopyPlan) (size : Nat) (message : Nat → Bytes) : List (Option Bytes) :=
  p.remoteSources.map fun entry => some ((message entry.1).take (Run.totalLength entry.2 * size))

/-- The sources with their replies. -/
theorem zip_repliesWith (p : CopyPlan) (size : Nat) (message : Nat → Bytes) :
    p.remoteSources.zip (p.repliesWith size message) = p.remoteSources.map fun entry =>
      (entry, some ((message entry.1).take (Run.totalLength entry.2 * size))) := by
  have hzip := @List.zip_map' _ _ _ id
    (fun entry => some ((message entry.1).take (Run.totalLength entry.2 * size))) p.remoteSources
  rwa [List.map_id] at hzip

section
variable {p : CopyPlan} {n rank size : Nat} {data mid : Bytes}

theorem awaitSource_receives (error : Option MeshError) (entry : Nat × List Run) (tag : Nat)
    (message : Bytes) :
    CommState.Yields rank (awaitSource size error (entry,
        .receive entry.1 tag (Run.totalLength entry.2 * size))) data
      [Parcel.received rank ⟨entry.1, tag, message⟩]
      (absorb size (error, data) (entry, some (message.take (Run.totalLength entry.2 * size)))).1
      (absorb size (error, data) (entry, some (message.take (Run.totalLength entry.2 * size)))).2 := by
  have hreceive := @CommState.Yields.lift _ _ rank _ _ _
    (Program.performs_receive rank ⟨entry.1, tag, message⟩ (Run.totalLength entry.2 * size)) data
  refine hreceive.then_silent ?_
  rw [absorb]
  cases messageFrom entry.1 (Run.totalLength entry.2 * size)
      (some (message.take (Run.totalLength entry.2 * size))) with
  | ok values => exact (CommState.Yields.update rank _ data).bind_silent (.pure rank error _)
  | error cause => exact .pure rank _ data

theorem awaitSources_receive (error : Option MeshError) (entries : RunTable) (tag : Nat)
    (message : Nat → Bytes) :
    let sources := entries.map fun entry =>
      (entry, some ((message entry.1).take (Run.totalLength entry.2 * size)))
    CommState.Yields rank ((entries.map fun entry => (entry,
        Request.receive entry.1 tag (Run.totalLength entry.2 * size))).foldlM (awaitSource size) error)
      data (entries.map fun entry => Parcel.received rank ⟨entry.1, tag, message entry.1⟩)
      (sources.foldl (absorb size) (error, data)).1 (sources.foldl (absorb size) (error, data)).2 := by
  induction entries generalizing error data with
  | nil => exact .pure rank error data
  | cons entry entries ih =>
    rw [List.map_cons, List.map_cons, List.map_cons, List.foldlM_cons]
    exact (awaitSource_receives error entry tag (message entry.1)).bind (ih _)

/-- An exchange in a group sends what the color holds, receives one message from every source, and deals
with one after the other. -/
theorem Sound.exchange_receives (h : p.Sound n) (hbytes : p.slots * size ≤ Word.bufferLimit)
    (hdata : data.length = p.slots * size)
    (hown : CommState.Yields rank ((p.recv.runsOf p.color).forM (copyOwn size)) data [] () mid)
    (message : Nat → Bytes) :
    Program.Performs rank ((p.exchange size).run.run data)
      ((p.outgoing (p.carried size data)).map (Parcel.sent rank) ++
        (p.incoming message).map (Parcel.received rank))
      (.done (ending ((p.remoteSources.zip (p.repliesWith size message)).findSome? (lack? size)),
        ((p.remoteSources.zip (p.repliesWith size message)).foldl (absorb size) (none, mid)).2)) := by
  have hawait := @awaitSources_receive rank size mid none p.remoteSources p.tag message
  have hsends := @postSends_yields p n rank size data _ h hbytes (Bytes.shows_element hdata)
  have hcarried : ∀ entry ∈ p.remoteDestinations,
      entry.2.flatMap (Run.taken (data.element size)) = p.carried size data entry.1 :=
    fun entry hentry => by rw [carried, h.sendsTo_of_mem (List.mem_of_mem_filter hentry)]
  rw [List.map_congr_left fun entry hentry =>
    congrArg (fun bytes => Parcel.sent rank ⟨entry.1, _, bytes⟩) (hcarried entry hentry)] at hsends
  have hzip := @List.zip_map' _ _ _ id (fun entry => Request.receive entry.1 p.tag
    (Run.totalLength entry.2 * size)) p.remoteSources
  rw [List.map_id] at hzip
  rw [outgoing, incoming, Parcel.toPeers_some, Parcel.toPeers_some, List.map_map, List.map_map,
    List.map_map, List.map_map]
  unfold exchange
  refine (h.postReceives_yields hbytes).andThen ?_
  refine hsends.andThen ?_
  refine hown.andThen ?_
  rw [hzip]
  refine hawait.andThen_silent ?_
  refine (CommState.Yields.lift (Program.performs_completeAll_send ..) _).andThen ?_
  rw [fst_foldl_absorb, Option.none_or, zip_repliesWith]
  cases (p.remoteSources.map fun entry => (entry, some ((message entry.1).take
      (Run.totalLength entry.2 * size)))).findSome? (lack? size) with
  | none => exact .refl _
  | some cause => exact .refl _

/-- Replies that are dealt with leave the storage as long as it was. -/
theorem Sound.length_foldl_absorb (h : p.Sound n) {state : Option MeshError × Bytes}
    (hstate : state.2.length = p.slots * size) {sources : List Source}
    (hsources : ∀ source ∈ sources, source.1 ∈ p.recv) :
    (sources.foldl (absorb size) state).2.length = p.slots * size := by
  induction sources generalizing state with
  | nil => exact hstate
  | cons source sources ih =>
    refine ih ?_ fun other hother => hsources other (by simp [hother])
    rw [absorb]
    cases hmessage : messageFrom source.1.1 (Run.totalLength source.1.2 * size) source.2 with
    | error cause => exact hstate
    | ok message =>
      obtain ⟨reply, hreply, hlength⟩ := lack?_eq_none_iff.mp (show lack? size source = none by
        rw [lack?, hmessage])
      rw [hreply, messageFrom_eq_ok_iff] at hmessage
      exact Run.length_scatter hstate (h.dest_stop_le _ (hsources source (by simp)))
        (hmessage.2 ▸ hlength)

/-- An exchange in a group ends. It succeeds if all messages have the lengths that are expected. -/
theorem Sound.exchange_ends (h : p.Sound n) (hbytes : p.slots * size ≤ Word.bufferLimit)
    (hdata : data.length = p.slots * size) (message : Nat → Bytes) :
    ∃ result data', Program.Performs rank ((p.exchange size).run.run data)
        ((p.outgoing (p.carried size data)).map (Parcel.sent rank) ++
          (p.incoming message).map (Parcel.received rank)) (.done (result, data')) ∧
      data'.length = p.slots * size ∧
      ((∀ entry ∈ p.remoteSources, (message entry.1).length = Run.totalLength entry.2 * size) →
        result = .ok ()) := by
  obtain ⟨mid, hown, hmid⟩ := @copyOwn_ends p n rank size data h hbytes hdata _ fun r hr => hr
  refine ⟨_, _, h.exchange_receives hbytes hdata hown message, ?_, fun hlengths => ?_⟩
  · refine h.length_foldl_absorb hmid fun source hsource => ?_
    exact List.mem_of_mem_filter (List.of_mem_zip hsource).1
  · rw [zip_repliesWith, List.findSome?_map, List.findSome?_eq_none_iff.mpr]
    · rfl
    · intro entry hentry
      refine lack?_eq_none_iff.mpr ⟨_, rfl, ?_⟩
      rw [List.take_of_length_le (Nat.le_of_eq (hlengths entry hentry))]
      exact hlengths entry hentry

end

end CopyPlan

end HaloMesh
