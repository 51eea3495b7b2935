-- SUMMARY: Values that their codec packs lawfully arrive as they were sent.
import HaloMesh.Proofs.Codec.Laws
import HaloMesh.Proofs.Collective.AllToAll
import HaloMesh.Proofs.Collective.OneToAll

/-!
# Values of a codec

Ranks that hand each other values of one codec get these values, if the codec is lawful at all of
them and takes at least one byte for each. So do ranks that get their values from the root.
-/

namespace HaloMesh

namespace Outgoing

variable {α : Type}

/-- The packed values of a codec. -/
def packing (c : Codec α) (item : Nat → Option α) : Outgoing where
  count dest := ((item dest).map c.size).getD 0
  packed dest := .ok (((item dest).map c.encode).getD [])

theorem ofItems_eq_ok (c : Codec α) (items : List (Option α)) :
    ofItems c.packer items = .ok (packing c fun dest => items.getD dest none) := by
  refine Checked.bind_eq_ok_iff.mpr
    ⟨items.map fun item => (item.map c.size).getD 0, Checked.mapM_eq_ok fun item _ => ?_, ?_⟩
  · cases item with
    | none => rfl
    | some a => rfl
  rw [Checked.pure_eq_ok, Except.ok.injEq, packing, mk.injEq]
  constructor
  · funext dest
    simp only [List.getD_eq_getElem?_getD, List.getElem?_map]
    cases items[dest]? with
    | none => rfl
    | some item => rfl
  · funext dest
    cases items.getD dest none with
    | none => rfl
    | some a => rfl

theorem content_packing {c : Codec α} {item : Nat → Option α} {dest : Nat}
    (h : ∀ a, item dest = some a → c.LawfulAt a ∧ c.size a ≠ 0) :
    (packing c item).content dest = (item dest).map fun a => .ok (c.encode a) := by
  unfold content
  cases hitem : item dest with
  | none =>
    have hcount : (packing c item).count dest = 0 := by simp [packing, hitem]
    exact if_pos hcount
  | some a =>
    obtain ⟨hlawful, hsize⟩ := h a hitem
    have hcount : (packing c item).count dest = c.size a := by simp [packing, hitem]
    have hpacked : (packing c item).packed dest = .ok (c.encode a) := by simp [packing, hitem]
    rw [hcount, if_neg hsize, AllToAll.packedFor, hpacked]
    simp only [reportCodec, Except.mapError, Checked.ok_bind, if_pos hlawful.length_eq, Option.map_some,
      Checked.pure_eq_ok]

end Outgoing

namespace AllToAll

open Outgoing

variable {α : Type} {c : Codec α} {item : Nat → Nat → Option α} {n s : Nat}

theorem unpackAll_cons {unpack : Bytes → Except CodecError α} {source : Nat} {payload : Bytes} {a : α}
    (h : unpack payload = .ok a) {payloads : List (Nat × Bytes)} {values : List (Nat × α)}
    (hrest : unpackAll unpack payloads = .ok values) :
    unpackAll unpack ((source, payload) :: payloads) = .ok ((source, a) :: values) := by
  have hreport : reportCodec (unpack payload) = .ok a := by
    rw [h]
    rfl
  rw [unpackAll] at hrest ⊢
  rw [List.mapM_cons, hrest]
  simp only [hreport, Checked.ok_bind, Checked.pure_eq_ok]

/-- The payloads of lawful values unpack to the values. -/
theorem unpackAll_packing {ranks : List Nat}
    (hcontent : ∀ r ∈ ranks, (packing c (item r)).content s =
      (item r s).map fun a => .ok (c.encode a))
    (hlawful : ∀ r ∈ ranks, ∀ a, item r s = some a → c.LawfulAt a) :
    unpackAll c.packer.unpack
      (ranks.filterMap fun r => ((packing c (item r)).payload s).map (r, ·)) =
        .ok (ranks.filterMap fun r => (item r s).map (r, ·)) := by
  induction ranks with
  | nil => rfl
  | cons r ranks ih =>
    have ih := ih (fun q hq => hcontent q (by simp [hq])) fun q hq => hlawful q (by simp [hq])
    rw [List.filterMap_cons, List.filterMap_cons, payload, hcontent r (by simp)]
    cases hitem : item r s with
    | none => exact ih
    | some a => exact unpackAll_cons (hlawful r (by simp) a hitem).read_eq ih

/-- Every rank gets what the others have for it, in the order of the ranks. -/
theorem outcome_packing (hs : s < n)
    (h : ∀ r < n, ∀ s < n, ∀ a, item r s = some a → c.LawfulAt a ∧ c.size a ≠ 0) :
    outcome c.packer.unpack (fun r => packing c (item r)) ⟨s, n⟩ =
      .ok ((List.range n).filterMap fun r => (item r s).map (r, ·)) := by
  have hcontent : ∀ r < n, ∀ s < n, (packing c (item r)).content s =
      (item r s).map fun a => .ok (c.encode a) :=
    fun r hr s hs => content_packing fun a ha => h r hr s hs a ha
  have hsend : (List.range n).findSome? (packing c (item s)).sendError = none := by
    refine List.findSome?_eq_none_iff.mpr fun dest hdest => ?_
    rw [sendError, hcontent s hs dest (List.mem_range.mp hdest)]
    cases item s dest with
    | none => rfl
    | some a => rfl
  have hreceive : (Member.peers ⟨s, n⟩).findSome?
      (fun source => (packing c (item source)).receiveError s source) = none := by
    refine List.findSome?_eq_none_iff.mpr fun source hsource => ?_
    rw [receiveError, hcontent source (Member.mem_peers.mp hsource).1 s hs]
    cases item source s with
    | none => rfl
    | some a => rfl
  rw [outcome, hsend, hreceive, unpackAll_packing]
  · rfl
  · exact fun r hr => hcontent r (List.mem_range.mp hr) s hs
  · exact fun r hr a ha => (h r (List.mem_range.mp hr) s hs a ha).1

end AllToAll

namespace OneToAll

variable {α : Type} {c : Codec α} {n : Nat} {a : Nat → α}

/-- Every rank gets what the root has for it. -/
theorem outcome_packer {rank : Nat} (h : c.LawfulAt (a rank)) :
    outcome c.packer a n rank = .ok (a rank) := by
  have hsend : (List.range' 1 (n - 1)).findSome? (sendError c.packer a) = none :=
    List.findSome?_eq_none_iff.mpr fun _ _ => rfl
  unfold outcome
  split
  · rename_i hrank
    rw [hsend, hrank]
  · show liftM (reportCodec (c.read (c.encode (a rank)))) = _
    rw [h.read_eq]
    rfl

end OneToAll

/-- Every rank gets what the root has for it, if it fits a buffer. -/
theorem oneToAll_packer_completes {α : Type} {c : Codec α} {n : Nat} (tag : Nat)
    {value : Nat → Nat → Nat → Except Fault α} {a : Nat → α} (hsize : 2 * (n - 1) < Word.limit)
    (hvalue : ∀ rank < n, value 0 rank n = .ok (a rank))
    (hlawful : ∀ rank < n, c.LawfulAt (a rank))
    (hbuffer : ∀ rank < n, c.size (a rank) ≤ Word.bufferLimit) :
    Comm.Completes n (fun rank => oneToAll c.packer ⟨rank, n⟩ tag (value rank)) a := by
  refine Completes.congr (oneToAll_completes tag hsize hvalue ?_) (fun _ _ => rfl) fun rank hrank => ?_
  · intro rank hrank _ data hdata
    cases hdata
    rw [(hlawful rank hrank).length_eq]
    exact hbuffer rank hrank
  · exact (OneToAll.outcome_packer (hlawful rank hrank)).symm

end HaloMesh
