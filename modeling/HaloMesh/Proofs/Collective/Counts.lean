-- SUMMARY: The exchange of counts completes in every group, and brings every rank its counts.
import HaloMesh.Collective.Counts
import HaloMesh.Proofs.Codec.Laws
import HaloMesh.Proofs.Comm.Yields

/-!
# Exchange of counts

Every rank tells every other rank a count. If all counts are sizes, every rank learns what the others
told it.
-/

namespace HaloMesh

namespace Member

theorem world_eq_ok_iff {n : Nat} {members : List Member} :
    world n = .ok members ↔ 24 * n ≤ Word.bufferLimit ∧ members = all n := by
  rw [world, Checked.bind_eq_ok_iff]
  constructor
  · rintro ⟨⟨⟩, hreserve, hmembers⟩
    exact ⟨Word.reserve_eq_ok_iff.mp hreserve, (Except.ok.inj hmembers).symm⟩
  · rintro ⟨hlimit, rfl⟩
    exact ⟨(), Word.reserve_eq_ok_iff.mpr hlimit, rfl⟩

theorem mem_peers {me : Member} {peer : Nat} :
    peer ∈ me.peers ↔ peer < me.size ∧ peer ≠ me.rank := by
  simp [peers]

theorem nodup_peers (me : Member) : me.peers.Nodup := List.nodup_range.filter _

/-- Two ranks of a group are each other's peers. -/
theorem matches_peers (n tag : Nat) (message : Nat → Nat → Option Bytes) :
    Matches n (fun r => Parcel.toPeers (peers ⟨r, n⟩) tag (message r))
      fun s => Parcel.toPeers (peers ⟨s, n⟩) tag fun r => message r s := by
  refine matches_toPeers tag ?_ ?_ ?_
  · exact fun r _ => ⟨nodup_peers _, fun s hs => (mem_peers.mp hs).1⟩
  · exact fun s _ => ⟨nodup_peers _, fun r hr => (mem_peers.mp hr).1⟩
  · intro r hr s hs
    rw [mem_peers, mem_peers]
    exact ⟨fun h => ⟨hr, Ne.symm h.2⟩, fun h => ⟨hs, Ne.symm h.2⟩⟩

end Member

namespace WireLength

theorem decode_encode {n : Nat} (h : n < Word.limit) : decode (encode n) = .ok n := by
  have hlength : (encode n).length = size := LittleEndian.length_encode _ _
  rw [decode, expectLength, if_pos hlength, Checked.ok_bind, encode, LittleEndian.value_encode_of_lt]
  · rfl
  · exact h

end WireLength

/-- Replies that are counts are read as such. -/
theorem countsFromReplies_encode {peers : List Nat} {count : Nat → Nat}
    (h : ∀ peer ∈ peers, count peer < Word.limit) :
    countsFromReplies (peers.map fun peer => (peer, some (WireLength.encode (count peer)))) =
      (peers.map fun peer => (peer, count peer), none) := by
  induction peers with
  | nil => rfl
  | cons peer peers ih =>
    have hreply : countFromReply peer (some (WireLength.encode (count peer))) = .ok (count peer) := by
      rw [countFromReply, WireLength.decode_encode (h peer (by simp))]
      rfl
    simp only [List.map_cons, countsFromReplies, ih fun p hp => h p (by simp [hp]), hreply]

/-- A rank sends its counts and receives those of its peers. -/
theorem exchangeCounts_yields {me : Member} (hme : me.rank < me.size) (tag : Nat)
    {counts : List Nat} (hlength : counts.length = me.size) {incoming : Nat → Nat}
    (hincoming : ∀ r < me.size, incoming r < Word.limit)
    (hown : incoming me.rank = counts.getD me.rank 0) :
    Comm.Yields me.rank (exchangeCounts me tag counts)
      ((Parcel.toPeers me.peers tag fun peer =>
          some (WireLength.encode (counts.getD peer 0))).map (Parcel.sent me.rank) ++
        (Parcel.toPeers me.peers tag fun peer =>
          some (WireLength.encode (incoming peer))).map (Parcel.received me.rank))
      ((List.range me.size).map incoming) := by
  have hlt : me.rank < counts.length := hlength ▸ hme
  have hfetch : fetch counts me.rank = .ok (incoming me.rank) := by
    rw [fetch_eq_ok_iff, hown, List.getD_eq_getElem?_getD, List.getElem?_eq_getElem hlt]
    rfl
  have hreplies : countsFromReplies (me.peers.zip (me.peers.map fun peer =>
      some ((WireLength.encode (incoming peer)).take WireLength.size))) =
        (me.peers.map fun peer => (peer, incoming peer), none) := by
    have htake : ∀ n, (WireLength.encode n).take WireLength.size = WireLength.encode n :=
      fun n => List.take_of_length_le (Nat.le_of_eq (LittleEndian.length_encode _ _))
    simp only [htake]
    rw [← List.map_prod_left_eq_zip]
    exact countsFromReplies_encode fun peer hpeer => hincoming peer (Member.mem_peers.mp hpeer).1
  have hresult : ((List.range me.size).map fun r => if r = me.rank then incoming me.rank else
      ((me.peers.map fun peer => (peer, incoming peer)).lookup r).getD 0) =
        (List.range me.size).map incoming := by
    refine List.map_congr_left fun r hr => ?_
    split
    · rename_i heq
      rw [heq]
    · rename_i hne
      rw [Checked.lookup_map, if_pos (Member.mem_peers.mpr ⟨List.mem_range.mp hr, hne⟩)]
      rfl
  unfold exchangeCounts
  rw [if_neg (not_not.mpr hlength), Parcel.toPeers_some, Parcel.toPeers_some, List.map_map,
    List.map_map]
  refine (Comm.Yields.lift (Program.performs_issueAll_receive ..)).bind_silent ?_
  refine (Comm.Yields.lift (Program.performs_issueAll_send ..)).bind ?_
  refine (Comm.Yields.of_fault hfetch).bind_silent ?_
  refine (Comm.Yields.lift (Program.performs_completeAll_receive ..)).then_silent ?_
  refine (Comm.Yields.lift (Program.performs_completeAll_send ..)).bind_silent ?_
  rw [hreplies, ← hresult]
  exact .pure me.rank _

/-- The exchange completes, and rank `s` learns what every rank told it. -/
theorem exchangeCounts_completes {n : Nat} (tag : Nat) {counts : Nat → List Nat}
    (hlength : ∀ r < n, (counts r).length = n) (hcounts : ∀ r < n, ∀ c ∈ counts r, c < Word.limit) :
    Comm.Completes n (fun r => exchangeCounts ⟨r, n⟩ tag (counts r))
      fun s => (List.range n).map fun r => (counts r).getD s 0 := by
  refine .of_round (Member.matches_peers n tag fun r s =>
    some (WireLength.encode ((counts r).getD s 0))) fun s hs => ?_
  refine @exchangeCounts_yields ⟨s, n⟩ hs tag (counts s) (hlength s hs)
    (fun r => (counts r).getD s 0) (fun r hr => ?_) rfl
  have hlt : s < (counts r).length := (hlength r hr).symm ▸ hs
  rw [List.getD_eq_getElem?_getD, List.getElem?_eq_getElem hlt]
  exact hcounts r hr _ (List.getElem_mem _)

end HaloMesh
