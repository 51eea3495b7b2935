-- SUMMARY: Which error or which values every rank of a group gets, whatever each rank has for each other.
import HaloMesh.Proofs.Collective.Values

/-!
# Offers

An offer is what one rank has for another: nothing, a value that is packed as announced, or a value
that is not. Every rank ends, whatever the offers are. A rank that cannot keep one of its own offers
returns the first such error. If it keeps them all, it returns an error that names the first rank
that cannot keep its offer to it. Otherwise it returns the values.
-/

namespace HaloMesh

/-- What a rank has for another rank. -/
structure Offer (α : Type) where
  /-- The announced length, zero if there is nothing. -/
  count : Nat
  value : α
  deriving DecidableEq, Repr

namespace Offer

variable {α : Type}

/-- The offers of one rank as its outgoing values. -/
def outgoing (packer : Packer α) (offers : Nat → Offer α) : Outgoing where
  count dest := (offers dest).count
  packed dest := packer.pack (offers dest).value

/-- Why an offer to `dest` cannot be kept: the value cannot be packed, or not in the announced length. -/
def failure (packer : Packer α) (dest : Nat) (offer : Offer α) : Option MeshError :=
  if offer.count = 0 then none
  else
    match packer.pack offer.value with
    | .error cause => some (.serialization cause)
    | .ok data =>
      if data.length = offer.count then none
      else some (.communication dest (.announcedMismatch offer.count data.length))

/-- What a rank of a group of `n` returns when rank `s` makes `offers s d` to rank `d`. -/
inductive Returns (packer : Packer α) (n : Nat) (offers : Nat → Nat → Offer α) (rank : Nat) :
    Except Failure (List (Nat × α)) → Prop
  /-- The rank cannot keep an offer of its own. -/
  | cannotSend {dest : Nat} {error : MeshError} (hdest : dest < n)
      (hbefore : ∀ d < dest, (offers rank d).failure packer d = none)
      (herror : (offers rank dest).failure packer dest = some error) :
      Returns packer n offers rank (.error (.reported error))
  /-- Another rank cannot keep its offer to the rank. -/
  | cannotReceive {source : Nat} {error : MeshError}
      (hown : ∀ d < n, (offers rank d).failure packer d = none) (hsource : source < n)
      (hbefore : ∀ s < source, (offers s rank).failure packer rank = none)
      (herror : (offers source rank).failure packer rank = some error) :
      Returns packer n offers rank (.error (.reported (.communication source .senderFailed)))
  /-- All offers that concern the rank are kept. -/
  | values {received : List (Nat × α)}
      (hown : ∀ d < n, (offers rank d).failure packer d = none)
      (hothers : ∀ s < n, (offers s rank).failure packer rank = none)
      (hincreasing : received.Pairwise fun earlier later => earlier.1 < later.1)
      (hmem : ∀ source a, (source, a) ∈ received ↔
        source < n ∧ (offers source rank).count ≠ 0 ∧ (offers source rank).value = a) :
      Returns packer n offers rank (.ok received)

/-! ## Offers as outgoing values -/

section Outgoing

variable (packer : Packer α) (offers : Nat → Offer α) (dest : Nat)

/-- The three forms that an offer can have, and what goes to `dest` in each. -/
inductive Kind : Option (Except MeshError Bytes) → Prop
  | nothing (hcount : (offers dest).count = 0) (hfailure : (offers dest).failure packer dest = none) :
      Kind none
  | broken {error : MeshError} (hfailure : (offers dest).failure packer dest = some error) :
      Kind (some (.error error))
  | kept {data : Bytes} (hcount : (offers dest).count ≠ 0)
      (hfailure : (offers dest).failure packer dest = none)
      (hpack : packer.pack (offers dest).value = .ok data) : Kind (some (.ok data))

theorem kind_content : Kind packer offers dest ((outgoing packer offers).content dest) := by
  have hcontent : (outgoing packer offers).content dest =
      if (offers dest).count = 0 then none
      else some (AllToAll.packedFor (outgoing packer offers) dest (offers dest).count) := rfl
  rw [hcontent]
  by_cases hcount : (offers dest).count = 0
  · rw [if_pos hcount]
    exact .nothing hcount (if_pos hcount)
  · rw [if_neg hcount]
    cases hpack : packer.pack (offers dest).value with
    | error cause =>
      have hpacked : AllToAll.packedFor (outgoing packer offers) dest (offers dest).count =
          .error (.serialization cause) := by
        simp only [AllToAll.packedFor, outgoing, hpack]
        rfl
      rw [hpacked]
      apply Kind.broken
      rw [failure, if_neg hcount, hpack]
    | ok data =>
      have hpacked : AllToAll.packedFor (outgoing packer offers) dest (offers dest).count =
          if data.length = (offers dest).count then .ok data
          else .error (.communication dest (.announcedMismatch (offers dest).count data.length)) := by
        simp only [AllToAll.packedFor, outgoing, hpack]
        rfl
      rw [hpacked]
      by_cases hlength : data.length = (offers dest).count
      · rw [if_pos hlength]
        refine .kept hcount ?_ hpack
        rw [failure, if_neg hcount, hpack]
        exact if_pos hlength
      · rw [if_neg hlength]
        apply Kind.broken
        rw [failure, if_neg hcount, hpack]
        exact if_neg hlength

theorem sendError_outgoing :
    (outgoing packer offers).sendError dest = (offers dest).failure packer dest := by
  have hkind := kind_content packer offers dest
  unfold Outgoing.sendError
  generalize (outgoing packer offers).content dest = content at hkind
  cases hkind with
  | nothing hcount hfailure => exact hfailure.symm
  | broken hfailure => exact hfailure.symm
  | kept hcount hfailure hpack => exact hfailure.symm

theorem receiveError_outgoing (source : Nat) : (outgoing packer offers).receiveError dest source =
    ((offers dest).failure packer dest).map fun _ => .communication source .senderFailed := by
  have hkind := kind_content packer offers dest
  unfold Outgoing.receiveError
  generalize (outgoing packer offers).content dest = content at hkind
  cases hkind with
  | nothing hcount hfailure =>
    rw [hfailure]
    rfl
  | broken hfailure =>
    rw [hfailure]
    rfl
  | kept hcount hfailure hpack =>
    rw [hfailure]
    rfl

end Outgoing

/-! ## Outcomes -/

/-- The first rank for which there is something. -/
theorem exists_first_of_findSome? {β : Type} {ranks : List Nat} {f : Nat → Option β} {b : β}
    (hincreasing : ranks.Pairwise (· < ·)) (h : ranks.findSome? f = some b) :
    ∃ first ∈ ranks, f first = some b ∧ ∀ rank ∈ ranks, rank < first → f rank = none := by
  obtain ⟨before, first, after, rfl, hfirst, hbefore⟩ := List.findSome?_eq_some_iff.mp h
  refine ⟨first, by simp, hfirst, fun rank hrank hlt => ?_⟩
  rw [List.pairwise_append, List.pairwise_cons] at hincreasing
  rw [List.mem_append, List.mem_cons] at hrank
  rcases hrank with hrank | rfl | hrank
  · exact hbefore rank hrank
  · exact absurd hlt (Nat.lt_irrefl _)
  · exact absurd hlt (Nat.lt_asymm (hincreasing.2.1.1 rank hrank))

variable {packer : Packer α} {offers : Nat → Nat → Offer α} {n rank : Nat}

/-- The value that a rank gets from `source`, if its offer is kept. -/
def given (offers : Nat → Nat → Offer α) (rank source : Nat) : Option (Nat × α) :=
  if (offers source rank).count = 0 then none else some (source, (offers source rank).value)

theorem given_eq_some_iff {source : Nat} {pair : Nat × α} : given offers rank source = some pair ↔
    (offers source rank).count ≠ 0 ∧ (source, (offers source rank).value) = pair := by
  unfold given
  split
  · rename_i hcount
    simp [hcount]
  · rename_i hcount
    simp [hcount]

theorem unpackAll_outgoing {sources : List Nat}
    (hkept : ∀ s ∈ sources, (offers s rank).failure packer rank = none)
    (hunpack : ∀ s ∈ sources, ∀ data, packer.pack (offers s rank).value = .ok data →
      packer.unpack data = .ok (offers s rank).value) :
    AllToAll.unpackAll packer.unpack (sources.filterMap fun s =>
      ((outgoing packer (offers s)).payload rank).map (s, ·)) =
        .ok (sources.filterMap (given offers rank)) := by
  induction sources with
  | nil => rfl
  | cons s sources ih =>
    have ih := ih (fun t ht => hkept t (by simp [ht])) fun t ht => hunpack t (by simp [ht])
    have hkind := kind_content packer (offers s) rank
    rw [List.filterMap_cons, List.filterMap_cons, Outgoing.payload, given]
    generalize (outgoing packer (offers s)).content rank = content at hkind
    cases hkind with
    | nothing hcount hfailure =>
      rw [if_pos hcount]
      exact ih
    | broken hfailure => cases (hkept s (by simp)).symm.trans hfailure
    | kept hcount hfailure hpack =>
      rw [if_neg hcount]
      exact AllToAll.unpackAll_cons (hunpack s (by simp) _ hpack) ih

theorem pairwise_given (offers : Nat → Nat → Offer α) (n rank : Nat) :
    ((List.range n).filterMap (given offers rank)).Pairwise fun earlier later => earlier.1 < later.1 := by
  refine List.Pairwise.filterMap _ (fun s t hlt a ha b hb => ?_) List.pairwise_lt_range
  obtain ⟨-, rfl⟩ := given_eq_some_iff.mp ha
  obtain ⟨-, rfl⟩ := given_eq_some_iff.mp hb
  exact hlt

theorem mem_given_iff {source : Nat} {a : α} :
    (source, a) ∈ (List.range n).filterMap (given offers rank) ↔
      source < n ∧ (offers source rank).count ≠ 0 ∧ (offers source rank).value = a := by
  rw [List.mem_filterMap]
  constructor
  · rintro ⟨s, hs, hgiven⟩
    obtain ⟨hcount, hpair⟩ := given_eq_some_iff.mp hgiven
    cases hpair
    exact ⟨List.mem_range.mp hs, hcount, rfl⟩
  · rintro ⟨hsource, hcount, rfl⟩
    exact ⟨source, List.mem_range.mpr hsource, given_eq_some_iff.mpr ⟨hcount, rfl⟩⟩

/-- A rank whose own offers are kept fails only by those of its peers. -/
theorem failure_of_peer (hrank : rank < n) (hown : ∀ d < n, (offers rank d).failure packer d = none)
    {s : Nat} (hs : s < n)
    (hpeer : s ∈ Member.peers ⟨rank, n⟩ → (offers s rank).failure packer rank = none) :
    (offers s rank).failure packer rank = none := by
  by_cases heq : s = rank
  · rw [heq]
    exact hown rank hrank
  · exact hpeer (Member.mem_peers.mpr ⟨hs, heq⟩)

/-- The outcome of a rank is the one that the offers make out. -/
theorem returns_outcome (hrank : rank < n)
    (hunpack : ∀ s < n, ∀ data, packer.pack (offers s rank).value = .ok data →
      packer.unpack data = .ok (offers s rank).value) :
    Returns packer n offers rank
      (AllToAll.outcome packer.unpack (fun s => outgoing packer (offers s)) ⟨rank, n⟩) := by
  unfold AllToAll.outcome
  simp only [funext fun dest => sendError_outgoing packer (offers rank) dest,
    fun s => receiveError_outgoing packer (offers s) rank s]
  cases hsend : (List.range n).findSome? fun dest => (offers rank dest).failure packer dest with
  | some error =>
    obtain ⟨dest, hdest, herror, hbefore⟩ := exists_first_of_findSome? List.pairwise_lt_range hsend
    rw [List.mem_range] at hdest
    refine .cannotSend hdest (fun d hd => ?_) herror
    exact hbefore d (List.mem_range.mpr (Nat.lt_trans hd hdest)) hd
  | none =>
    have hown : ∀ d < n, (offers rank d).failure packer d = none := fun d hd =>
      List.findSome?_eq_none_iff.mp hsend d (List.mem_range.mpr hd)
    rw [Option.none_or]
    cases hreceive : (Member.peers ⟨rank, n⟩).findSome? fun s =>
        ((offers s rank).failure packer rank).map fun _ =>
          MeshError.communication s TrafficError.senderFailed with
    | some error =>
      obtain ⟨source, hsource, herror, hbefore⟩ := exists_first_of_findSome?
        (List.Pairwise.filter _ List.pairwise_lt_range) hreceive
      obtain ⟨cause, hcause, rfl⟩ := Option.map_eq_some_iff.mp herror
      have hlt := (Member.mem_peers.mp hsource).1
      -- The first that fails among the peers is the first of all, since the rank itself does not fail.
      refine .cannotReceive hown hlt (fun s hs => ?_) hcause
      exact failure_of_peer hrank hown (Nat.lt_trans hs hlt) fun hpeer =>
        Option.map_eq_none_iff.mp (hbefore s hpeer hs)
    | none =>
      have hothers : ∀ s < n, (offers s rank).failure packer rank = none := fun s hs =>
        failure_of_peer hrank hown hs fun hpeer =>
          Option.map_eq_none_iff.mp (List.findSome?_eq_none_iff.mp hreceive s hpeer)
      have hvalues := @unpackAll_outgoing _ packer offers rank (List.range n)
        (fun s hs => hothers s (List.mem_range.mp hs)) fun s hs => hunpack s (List.mem_range.mp hs)
      show Returns packer n offers rank (liftM (AllToAll.unpackAll packer.unpack _))
      rw [hvalues]
      exact .values hown hothers (pairwise_given offers n rank) fun _ _ => mem_given_iff

end Offer

/-! ## The collective -/

open Offer in
/-- However the ranks of a group interleave, every rank returns what the offers make out, and no
message is left. -/
theorem allToAll_settles {α : Type} (packer : Packer α) {n : Nat} {members : List Member}
    (hmembers : Member.world n = .ok members) (tag : Nat) (offers : Nat → Nat → Offer α)
    (hcount : ∀ s < n, ∀ d < n, (offers s d).count + 1 ≤ Word.bufferLimit)
    (hunpack : ∀ s < n, ∀ d < n, ∀ data, packer.pack (offers s d).value = .ok data →
      packer.unpack data = .ok (offers s d).value) :
    ∃ results : Nat → Except Failure (List (Nat × α)),
      (Group.start (members.map fun me =>
        (allToAll packer.unpack me tag (outgoing packer (offers me.rank))).run)).Settles
          ((List.range n).map results) ∧
      ∀ rank < n, Returns packer n offers rank (results rank) := by
  obtain ⟨hgroup, rfl⟩ := Member.world_eq_ok_iff.mp hmembers
  have hwords : 8 * n ≤ Word.bufferLimit := by omega
  have hcompletes := @allToAll_completes _ packer.unpack n tag (fun s => outgoing packer (offers s))
    hwords hcount
  refine ⟨_, ?_, fun rank hrank => returns_outcome hrank fun s hs => hunpack s hs rank hrank⟩
  rw [Member.all, List.map_map]
  exact hcompletes.settles

/-- Three ranks, one of which cannot pack a value for another. -/
theorem allToAll_settles_of_three :
    let offers : Nat → Nat → Offer Item := fun s d =>
      if s = 1 ∧ d = 2 then ⟨4, .refusing "busy"⟩
      else if d = 0 ∧ s ≠ 1 then ⟨20, .numbers [s]⟩
      else ⟨0, .numbers []⟩
    Member.world 3 = .ok (Member.all 3) ∧
      (∀ s < 3, ∀ d < 3, (offers s d).count + 1 ≤ Word.bufferLimit) ∧
      (∀ s < 3, ∀ d < 3, ∀ data, Item.packer.pack (offers s d).value = .ok data →
        Item.packer.unpack data = .ok (offers s d).value) ∧
      ∃ results : Nat → Except Failure (List (Nat × Item)),
        (Group.start ((Member.all 3).map fun me =>
          (allToAll Item.packer.unpack me AllToAll.defaultTag
            (Offer.outgoing Item.packer (offers me.rank))).run)).Settles
            ((List.range 3).map results) ∧
        ∀ rank < 3, Offer.Returns Item.packer 3 offers rank (results rank) := by
  intro offers
  have hcount : ∀ s < 3, ∀ d < 3, (offers s d).count + 1 ≤ Word.bufferLimit := by decide
  have hread : ∀ s < 3, ∀ d < 3, (Item.packer.pack (offers s d).value).toOption.all fun data =>
      decide ((Item.packer.unpack data).toOption = some (offers s d).value) := by decide
  have hunpack : ∀ s < 3, ∀ d < 3, ∀ data, Item.packer.pack (offers s d).value = .ok data →
      Item.packer.unpack data = .ok (offers s d).value := by
    intro s hs d hd data hpack
    have h := hread s hs d hd
    rw [hpack] at h
    cases hunpack : Item.packer.unpack data with
    | error cause => simp [hunpack, Except.toOption] at h
    | ok item => simpa [hunpack, Except.toOption] using h
  exact ⟨rfl, hcount, hunpack, allToAll_settles Item.packer rfl _ offers hcount hunpack⟩

end HaloMesh
