-- SUMMARY: What every rank gets from the root, whichever of the values cannot be packed.
import HaloMesh.Proofs.Collective.Offers

/-!
# Shares

The share of a rank is the value that rank 0 has for it. Every rank ends, whichever shares cannot be
packed, and a share that cannot be packed concerns nobody but its rank and the root: its rank returns
an error that names rank 0, and the root returns the error of the first such rank. The share of rank 0
itself is never packed.
-/

namespace HaloMesh

namespace OneToAll

variable {α : Type}

/-- What a rank of a group of `n` returns when rank 0 has `share r` for rank `r`. -/
inductive Returns (packer : Packer α) (n : Nat) (share : Nat → α) : Nat → Except Failure α → Prop
  /-- The root could pack every share that it sends. -/
  | rootKeeps (hall : ∀ r, 0 < r → r < n → ∃ data, packer.pack (share r) = .ok data) :
      Returns packer n share 0 (.ok (share 0))
  /-- The root could not pack a share. -/
  | rootFails {first : Nat} {cause : CodecError} (hfirst : 0 < first) (hlt : first < n)
      (hbefore : ∀ r, 0 < r → r < first → ∃ data, packer.pack (share r) = .ok data)
      (hcause : packer.pack (share first) = .error cause) :
      Returns packer n share 0 (.error (.reported (.serialization cause)))
  /-- The share of the rank could be packed. -/
  | gets {rank : Nat} {data : Bytes} (hrank : 0 < rank) (hpack : packer.pack (share rank) = .ok data) :
      Returns packer n share rank (.ok (share rank))
  /-- The share of the rank could not be packed. -/
  | misses {rank : Nat} {cause : CodecError} (hrank : 0 < rank)
      (hcause : packer.pack (share rank) = .error cause) :
      Returns packer n share rank (.error (.reported (.communication 0 (.rootFailed rank))))

variable {packer : Packer α} {n : Nat} {share : Nat → α}

theorem sendError_eq_none_iff {rank : Nat} :
    sendError packer share rank = none ↔ ∃ data, packer.pack (share rank) = .ok data := by
  unfold sendError
  cases packer.pack (share rank) with
  | ok data => simp
  | error cause => simp

theorem sendError_eq_some_iff {rank : Nat} {error : MeshError} :
    sendError packer share rank = some error ↔
      ∃ cause, packer.pack (share rank) = .error cause ∧ .serialization cause = error := by
  unfold sendError
  cases packer.pack (share rank) with
  | ok data => simp
  | error cause => simp

theorem returns_outcome_root : Returns packer n share 0 (outcome packer share n 0) := by
  have hmem : ∀ r, r ∈ List.range' 1 (n - 1) ↔ 0 < r ∧ r < n := by
    intro r
    rw [List.mem_range'_1]
    omega
  rw [outcome, if_pos rfl]
  cases hsend : (List.range' 1 (n - 1)).findSome? (sendError packer share) with
  | none =>
    refine .rootKeeps fun r hr hlt => ?_
    exact sendError_eq_none_iff.mp (List.findSome?_eq_none_iff.mp hsend r ((hmem r).mpr ⟨hr, hlt⟩))
  | some error =>
    obtain ⟨first, hfirst, herror, hbefore⟩ :=
      Offer.exists_first_of_findSome? List.pairwise_lt_range' hsend
    obtain ⟨hpos, hlt⟩ := (hmem first).mp hfirst
    obtain ⟨cause, hcause, rfl⟩ := sendError_eq_some_iff.mp herror
    refine .rootFails hpos hlt (fun r hr hbelow => ?_) hcause
    exact sendError_eq_none_iff.mp (hbefore r ((hmem r).mpr ⟨hr, Nat.lt_trans hbelow hlt⟩) hbelow)

theorem returns_outcome_leaf {rank : Nat} (hrank : 0 < rank)
    (hunpack : ∀ data, packer.pack (share rank) = .ok data → packer.unpack data = .ok (share rank)) :
    Returns packer n share rank (outcome packer share n rank) := by
  rw [outcome, if_neg (Nat.pos_iff_ne_zero.mp hrank)]
  cases hpack : packer.pack (share rank) with
  | ok data =>
    show Returns packer n share rank (liftM (reportCodec (packer.unpack data)))
    rw [hunpack data hpack]
    exact .gets hrank hpack
  | error cause => exact .misses hrank hpack

end OneToAll

/-! ## The collective -/

open OneToAll in
/-- However the ranks of a group interleave, every rank returns what the shares make out, and no
message is left. Only what rank 0 computes matters. -/
theorem oneToAll_settles {α : Type} (packer : Packer α) {n : Nat} {members : List Member}
    (hmembers : Member.world n = .ok members) (tag : Nat) {value : Nat → Nat → Nat → Except Fault α}
    {f : Nat → Nat → α} (hvalue : ∀ rank < n, value 0 rank n = .ok (f rank n))
    (hbuffer : ∀ rank, 0 < rank → rank < n → ∀ data, packer.pack (f rank n) = .ok data →
      data.length ≤ Word.bufferLimit)
    (hunpack : ∀ rank, 0 < rank → rank < n → ∀ data, packer.pack (f rank n) = .ok data →
      packer.unpack data = .ok (f rank n)) :
    ∃ results : Nat → Except Failure α,
      (Group.start (members.map fun me =>
        (oneToAll packer me tag (value me.rank)).run)).Settles ((List.range n).map results) ∧
      ∀ rank < n, Returns packer n (f · n) rank (results rank) := by
  obtain ⟨hgroup, rfl⟩ := Member.world_eq_ok_iff.mp hmembers
  have hsize : 2 * (n - 1) < Word.limit := Word.lt_limit_of_le (by omega)
  have hcompletes := @oneToAll_completes _ packer n tag value (f · n) hsize hvalue
    fun rank hrank hroot => hbuffer rank (Nat.pos_iff_ne_zero.mpr hroot) hrank
  refine ⟨outcome packer (f · n) n, ?_, fun rank hrank => ?_⟩
  · rw [Member.all, List.map_map]
    exact hcompletes.settles
  · rcases Nat.eq_zero_or_pos rank with rfl | hpos
    · exact returns_outcome_root
    · exact returns_outcome_leaf hpos (hunpack rank hpos hrank)

/-- Four ranks, where the root can pack neither its own share nor that of rank 2. -/
theorem oneToAll_settles_of_four :
    let f : Nat → Nat → Item := fun rank size =>
      if rank % 2 = 0 then .refusing "busy" else .numbers [rank, size]
    Member.world 4 = .ok (Member.all 4) ∧
      (∀ rank, 0 < rank → rank < 4 → ∀ data, Item.packer.pack (f rank 4) = .ok data →
        data.length ≤ Word.bufferLimit) ∧
      (∀ rank, 0 < rank → rank < 4 → ∀ data, Item.packer.pack (f rank 4) = .ok data →
        Item.packer.unpack data = .ok (f rank 4)) ∧
      ∃ results : Nat → Except Failure Item,
        (Group.start ((Member.all 4).map fun me =>
          (oneToAll Item.packer me OneToAll.defaultTag fun rank size => .ok (f rank size)).run)).Settles
            ((List.range 4).map results) ∧
        ∀ rank < 4, OneToAll.Returns Item.packer 4 (f · 4) rank (results rank) := by
  intro f
  have hread : ∀ rank < 4, (Item.packer.pack (f rank 4)).toOption.all fun data =>
      decide (data.length ≤ Word.bufferLimit ∧
        (Item.packer.unpack data).toOption = some (f rank 4)) := by decide
  have hdata : ∀ rank < 4, ∀ data, Item.packer.pack (f rank 4) = .ok data →
      data.length ≤ Word.bufferLimit ∧ Item.packer.unpack data = .ok (f rank 4) := by
    intro rank hrank data hpack
    have h := hread rank hrank
    rw [hpack] at h
    obtain ⟨hlength, h⟩ := of_decide_eq_true h
    cases hunpack : Item.packer.unpack data with
    | error cause => simp [hunpack, Except.toOption] at h
    | ok item => exact ⟨hlength, by simpa [hunpack, Except.toOption] using h⟩
  have hbuffer : ∀ rank, 0 < rank → rank < 4 → ∀ data, Item.packer.pack (f rank 4) = .ok data →
      data.length ≤ Word.bufferLimit := fun rank _ hrank data hpack => (hdata rank hrank data hpack).1
  have hunpack : ∀ rank, 0 < rank → rank < 4 → ∀ data, Item.packer.pack (f rank 4) = .ok data →
      Item.packer.unpack data = .ok (f rank 4) := fun rank _ hrank data hpack =>
    (hdata rank hrank data hpack).2
  exact ⟨rfl, hbuffer, hunpack, @oneToAll_settles _ Item.packer 4 _ rfl _
    (fun _ rank size => .ok (f rank size)) f (fun _ _ => rfl) hbuffer hunpack⟩

end HaloMesh
