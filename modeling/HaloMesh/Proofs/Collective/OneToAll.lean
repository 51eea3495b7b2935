-- SUMMARY: Every rank gets the value that rank 0 has for it, or learns that it could not be packed.
import HaloMesh.Collective.OneToAll
import HaloMesh.Proofs.Collective.Counts

/-!
# Values from the root

Rank 0 sends every other rank a length and a packed value, or only a length that says that there is
no value. In both cases the other rank receives as many messages as are sent to it. What a rank ends
with depends on the values of rank 0 alone.
-/

namespace HaloMesh

namespace Parcel

/-- Several messages for one peer. -/
def batch (peer tag : Nat) (messages : List Bytes) : List Parcel :=
  messages.map fun bytes => ⟨peer, tag, bytes⟩

theorem between_batch (first tag : Nat) (messages : List Bytes) (peer t : Nat) :
    between (batch first tag messages) peer t =
      if first = peer ∧ tag = t then messages else [] := by
  induction messages with
  | nil => simp [batch, between]
  | cons bytes messages ih =>
    have hcons : between (batch first tag (bytes :: messages)) peer t =
        (if first = peer ∧ tag = t then [bytes] else []) ++
          between (batch first tag messages) peer t := by
      unfold between batch
      by_cases h : first = peer ∧ tag = t
      · simp [h]
      · simp [h]
    rw [hcons, ih]
    by_cases h : first = peer ∧ tag = t
    · simp [h]
    · simp [h]

theorem between_flatMap {β : Type} (xs : List β) (f : β → List Parcel) (peer t : Nat) :
    between (xs.flatMap f) peer t = xs.flatMap fun x => between (f x) peer t := by
  unfold between
  rw [List.filter_flatMap, List.map_flatMap]

end Parcel

namespace OneToAll

variable {α : Type}

/-! ## What goes from the root to a rank -/

section
variable (packer : Packer α) (tag : Nat) (value : Nat → α)

/-- The messages to a rank, as rank 0 sends them. -/
def parcelsTo (rank : Nat) : List Parcel :=
  Parcel.batch rank tag (messages (packer.pack (value rank)))

/-- The messages to a rank, as the rank receives them. -/
def parcelsFrom (rank : Nat) : List Parcel :=
  Parcel.batch 0 tag (messages (packer.pack (value rank)))

/-- The error of rank 0. -/
def sendError (rank : Nat) : Option MeshError :=
  match packer.pack (value rank) with
  | .ok _ => none
  | .error cause => some (.serialization cause)

/-- What a rank of a group of `n` ends with. -/
def outcome (n rank : Nat) : Except Failure α :=
  if rank = 0 then
    match (List.range' 1 (n - 1)).findSome? (sendError packer value) with
    | some error => .error (.reported error)
    | none => .ok (value 0)
  else
    match packer.pack (value rank) with
    | .ok data => liftM (reportCodec (packer.unpack data))
    | .error _ => .error (.reported (.communication 0 (.rootFailed rank)))

end

/-- The requests with which rank 0 sends messages. -/
def requestsOf (parcels : List Parcel) : List Request :=
  parcels.map fun p => .send p.peer p.tag p.bytes

variable {packer : Packer α} {tag n : Nat} {value : Nat → Nat → Except Fault α} {a : Nat → α}

/-! ## The root -/

theorem issueAll_yields (parcels : List Parcel) :
    Comm.Yields 0 (liftM (Program.issueAll (requestsOf parcels))) (parcels.map (Parcel.sent 0)) () :=
  .lift (Program.performs_issueAll_send ..)

/-- Rank 0 sends the messages for a rank, whether or not there is a value. -/
theorem sendTo_yields {rank : Nat} (hvalue : value rank n = .ok (a rank))
    (state : List Request × Option MeshError) :
    Comm.Yields 0 (sendTo packer tag n value rank state)
      ((parcelsTo packer tag a rank).map (Parcel.sent 0))
      (state.1 ++ requestsOf (parcelsTo packer tag a rank), state.2.or (sendError packer a rank)) := by
  have hrequests : (messages (packer.pack (a rank))).map (Request.send rank tag) =
      requestsOf (parcelsTo packer tag a rank) := by
    rw [requestsOf, parcelsTo, Parcel.batch, List.map_map]
    rfl
  refine (Comm.Yields.of_fault hvalue).bind_silent ?_
  have hissue := issueAll_yields (parcelsTo packer tag a rank)
  rw [← hrequests] at hissue ⊢
  unfold sendError
  cases hpack : packer.pack (a rank) with
  | ok data =>
    rw [hpack] at hissue
    simp only [Option.or_none]
    exact hissue.then_silent (.pure 0 _)
  | error cause =>
    rw [hpack] at hissue
    refine (Comm.Yields.lift (Program.performs_record ..)).bind_silent ?_
    exact hissue.then_silent (.pure 0 _)

theorem foldl_sendTo (ranks : List Nat) (state : List Request × Option MeshError) :
    ranks.foldl (fun state rank => (state.1 ++ requestsOf (parcelsTo packer tag a rank),
        state.2.or (sendError packer a rank))) state =
      (state.1 ++ requestsOf (ranks.flatMap (parcelsTo packer tag a)),
        state.2.or (ranks.findSome? (sendError packer a))) := by
  induction ranks generalizing state with
  | nil => simp [requestsOf]
  | cons rank ranks ih =>
    rw [List.foldl_cons, ih, List.flatMap_cons, List.findSome?_cons, requestsOf, requestsOf, requestsOf,
      List.map_append, List.append_assoc, Option.or_assoc]
    cases sendError packer a rank with
    | none => rfl
    | some error => rfl

/-- Rank 0 sends every other rank its messages. -/
theorem root_performs (hsize : 2 * (n - 1) < Word.limit) (hn : 0 < n)
    (hvalue : ∀ rank < n, value rank n = .ok (a rank)) :
    Program.Performs 0 (root packer tag n value).run
      (((List.range' 1 (n - 1)).flatMap (parcelsTo packer tag a)).map (Parcel.sent 0))
      (.done (outcome packer a n 0)) := by
  have hloop : Comm.Yields 0 (countFrom (sendTo packer tag n value) (n - 1) 1 ([], none))
      (((List.range' 1 (n - 1)).flatMap (parcelsTo packer tag a)).map (Parcel.sent 0))
      (requestsOf ((List.range' 1 (n - 1)).flatMap (parcelsTo packer tag a)),
        (List.range' 1 (n - 1)).findSome? (sendError packer a)) := by
    have h := @Comm.Yields.foldlM _ _ 0 (fun state rank => sendTo packer tag n value rank state) _ _
      (fun _ => True) (List.range' 1 (n - 1)) ([], none) trivial fun rank hrank state _ => by
        have hlt : rank < n := by
          rw [List.mem_range'_1] at hrank
          omega
        exact ⟨sendTo_yields (hvalue rank hlt) state, trivial⟩
    rw [foldl_sendTo, ← List.map_flatMap] at h
    rw [countFrom_eq_foldlM]
    simpa using h
  refine (Comm.Yields.of_fault (Word.mul_of_lt hsize)).andThen (hloop.andThen_silent ?_)
  refine (Comm.Yields.lift (Program.performs_completeAll_send ..)).andThen ?_
  rw [outcome, if_pos rfl]
  cases (List.range' 1 (n - 1)).findSome? (sendError packer a) with
  | some error => exact .refl _
  | none => exact Comm.Yields.of_fault (hvalue 0 hn)

/-! ## The other ranks -/

theorem receive_yields (rank length : Nat) (missing : TrafficError) {message : Bytes}
    (hlength : message.length ≤ length) : Comm.Yields rank (receive tag length missing)
      [Parcel.received rank ⟨0, tag, message⟩] message := by
  refine (Comm.Yields.lift (Program.performs_expect ..)).bind_silent ?_
  refine (Comm.Yields.lift (Program.performs_receive rank ⟨0, tag, message⟩ length)).then_silent ?_
  rw [List.take_of_length_le hlength]
  exact .pure rank message

/-- Another rank receives the messages for it. -/
theorem leaf_performs {rank : Nat} (hrank : rank ≠ 0)
    (hlength : ∀ data, packer.pack (a rank) = .ok data → data.length ≤ Word.bufferLimit) :
    Program.Performs rank (leaf packer tag rank).run
      ((parcelsFrom packer tag a rank).map (Parcel.received rank)) (.done (outcome packer a n rank)) := by
  have hannounced := fun m => @receive_yields tag rank WireLength.size .missingLength
    (WireLength.encode m) (Nat.le_of_eq (LittleEndian.length_encode _ _))
  rw [outcome, if_neg hrank, parcelsFrom, Parcel.batch]
  cases hpack : packer.pack (a rank) with
  | error cause =>
    have hdecode : (WireLength.decode (WireLength.encode WireLength.failed)).mapError
        (MeshError.communication 0) = .ok WireLength.failed := by
      rw [WireLength.decode_encode (by decide)]
      rfl
    refine (hannounced WireLength.failed).andThen ?_
    refine (Comm.Yields.of_error hdecode).andThen ?_
    exact .refl _
  | ok data =>
    have hle := hlength data hpack
    have hdecode : (WireLength.decode (WireLength.encode data.length)).mapError
        (MeshError.communication 0) = .ok data.length := by
      rw [WireLength.decode_encode (Word.lt_limit_of_le hle)]
      rfl
    have hnot : data.length ≠ WireLength.failed := by
      unfold WireLength.failed
      unfold Word.bufferLimit at hle
      omega
    have hexpect : (expectLength data.length data.length).mapError (MeshError.communication 0) =
        .ok () := by
      rw [expectLength, if_pos rfl]
      rfl
    refine (hannounced data.length).andThen ((Comm.Yields.of_error hdecode).andThen ?_)
    rw [if_neg hnot]
    refine (Comm.Yields.of_fault (Word.reserve_eq_ok_iff.mpr hle)).andThen ?_
    refine (receive_yields rank data.length _ (Nat.le_refl _)).andThen_silent ?_
    refine (Comm.Yields.of_error hexpect).andThen ?_
    exact Comm.performs_liftM rank _

/-! ## The round -/

/-- What a rank of the group sends. -/
def outgoing (packer : Packer α) (tag n : Nat) (a : Nat → α) (rank : Nat) : List Parcel :=
  if rank = 0 then (List.range' 1 (n - 1)).flatMap (parcelsTo packer tag a) else []

/-- What a rank of the group receives. -/
def incoming (packer : Packer α) (tag : Nat) (a : Nat → α) (rank : Nat) : List Parcel :=
  if rank = 0 then [] else parcelsFrom packer tag a rank

/-- Every rank but the root receives what the root sends it. -/
theorem matches_root (packer : Packer α) (tag n : Nat) (a : Nat → α) :
    Matches n (outgoing packer tag n a) (incoming packer tag a) where
  out_lt r hr p hp := by
    unfold outgoing at hp
    split at hp
    · obtain ⟨rank, hrank, hp⟩ := List.mem_flatMap.mp hp
      obtain ⟨bytes, -, rfl⟩ := List.mem_map.mp hp
      rw [List.mem_range'_1] at hrank
      show rank < n
      omega
    · cases hp
  inc_lt r hr p hp := by
    unfold incoming at hp
    split at hp
    · cases hp
    · obtain ⟨bytes, -, rfl⟩ := List.mem_map.mp hp
      exact Nat.lt_of_le_of_lt (Nat.zero_le r) hr
  between_eq r hr s hs t := by
    by_cases hr0 : r = 0
    · rw [outgoing, if_pos hr0, Parcel.between_flatMap, incoming]
      by_cases hs0 : s = 0
      · rw [if_pos hs0]
        apply List.flatMap_eq_nil_iff.mpr
        intro rank hrank
        rw [parcelsTo, Parcel.between_batch, if_neg]
        rintro ⟨rfl, -⟩
        rw [List.mem_range'_1] at hrank
        omega
      · rw [if_neg hs0, List.range'_eq_map_range, List.flatMap_map, flatMap_range_eq (s := s - 1)]
        · have hlt : s - 1 < n - 1 := by omega
          have hsucc : 1 + (s - 1) = s := by omega
          rw [if_pos hlt, hsucc, parcelsTo, parcelsFrom, Parcel.between_batch, Parcel.between_batch, hr0]
          simp
        · intro rank _ hne
          rw [parcelsTo, Parcel.between_batch, if_neg]
          rintro ⟨rfl, -⟩
          omega
    · rw [outgoing, if_neg hr0, incoming]
      by_cases hs0 : s = 0
      · rw [if_pos hs0]
        rfl
      · rw [if_neg hs0, parcelsFrom, Parcel.between_batch, if_neg fun h => hr0 h.1.symm]
        rfl

end OneToAll

open OneToAll in
/-- All ranks of a group come to their outcomes, if every value that is packed packs into a message
that can be received. -/
theorem oneToAll_completes {α : Type} {packer : Packer α} {n : Nat} (tag : Nat)
    {value : Nat → Nat → Nat → Except Fault α} {a : Nat → α} (hsize : 2 * (n - 1) < Word.limit)
    (hvalue : ∀ rank < n, value 0 rank n = .ok (a rank))
    (hlength : ∀ rank < n, rank ≠ 0 →
      ∀ data, packer.pack (a rank) = .ok data → data.length ≤ Word.bufferLimit) :
    Completes n (fun rank => (oneToAll packer ⟨rank, n⟩ tag (value rank)).run)
      (outcome packer a n) := by
  refine .of_round (matches_root packer tag n a) fun rank hrank => ?_
  rw [outgoing, incoming, oneToAll]
  by_cases hroot : rank = 0
  · subst hroot
    simp only [if_true, List.map_nil, List.append_nil]
    exact root_performs hsize hrank hvalue
  · simp only [if_neg hroot, List.map_nil, List.nil_append]
    exact leaf_performs hroot (hlength rank hrank hroot)

end HaloMesh
