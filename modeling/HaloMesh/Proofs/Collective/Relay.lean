-- SUMMARY: A rank that gets a value from the root gets the one that was sent to it, also in a group that fails.
import HaloMesh.Collective.OneToAll
import HaloMesh.Proofs.Codec.Delimited
import HaloMesh.Proofs.Collective.Reports
import HaloMesh.Proofs.Comm.Channel

/-!
# Relayed values

Rank 0 may fault before it has sent anything to a rank, and then the rank waits forever. But what it sends
to the rank is the packed value and nothing else, and a packed value that delimits itself is read as no
other one. So if a rank returns a value at all, it is the one that rank 0 has for it.
-/

namespace HaloMesh

namespace OneToAll

variable {α : Type} {packer : Packer α} {tag size rank : Nat} {value : Nat → Nat → Except Fault α} {a : α}
  {data : Bytes} {ms : List Bytes} {error : MeshError → Prop}

/-! ## The root -/

/-- The messages for a rank are put on no channel to another. -/
theorem follows_issueAll_to {i : Nat} (hne : i ≠ rank) (messages : List Bytes) :
    (Program.issueAll (messages.map (Request.send i tag))).Follows 0 ⟨0, rank, tag⟩
      (fun _ ms' => ms' = ms) ms := by
  refine Program.follows_issueAll_of_ne fun request hrequest => ?_
  obtain ⟨message, -, rfl⟩ := List.mem_map.mp hrequest
  refine if_neg fun heq => hne ?_
  cases heq
  rfl

theorem sendTo_follows_of_ne {i : Nat} (hne : i ≠ rank) (herror : ∀ e : MeshError, e.OfTraffic → error e)
    {state : List Request × Option MeshError} (hstate : ∀ e, state.2 = some e → error e) :
    (sendTo packer tag size value i state).Follows error 0 ⟨0, rank, tag⟩ ms
      fun state ms' => (∀ e, state.2 = some e → error e) ∧ ms' = ms := by
  unfold sendTo
  refine .fault_bind fun v _ => ?_
  cases packer.pack v with
  | ok data =>
    refine .lift_bind ((follows_issueAll_to hne _).mono fun _ ms' hms' => ?_)
    exact .pure ⟨hstate, hms'⟩
  | error cause =>
    refine .lift_bind (.lift_bind ((follows_issueAll_to hne _).mono fun _ ms' hms' => ?_))
    exact .pure ⟨firstError_of hstate (herror _ trivial), hms'⟩

/-- The messages for the rank are the listed ones. -/
theorem sendTo_follows (hvalue : value rank size = .ok a) (hpack : packer.pack a = .ok data)
    {state : List Request × Option MeshError} (hstate : ∀ e, state.2 = some e → error e) :
    (sendTo packer tag size value rank state).Follows error 0 ⟨0, rank, tag⟩ (messages (.ok data))
      fun state ms => (∀ e, state.2 = some e → error e) ∧ ms = [] := by
  unfold sendTo
  refine .fault_bind fun v hv => ?_
  cases hvalue.symm.trans hv
  rw [hpack]
  refine .lift_bind ((Program.follows_issueAll _).mono fun _ ms hms => ?_)
  exact .pure ⟨hstate, hms⟩

/-- The messages that rank 0 has still to send to the rank when it comes to rank `i`. -/
def listed (data : Bytes) (rank i : Nat) : List Bytes := if rank < i then [] else messages (.ok data)

theorem listed_succ {i : Nat} (hne : i ≠ rank) : listed data rank (i + 1) = listed data rank i := by
  unfold listed
  by_cases hlt : rank < i
  · rw [if_pos hlt, if_pos (Nat.lt_succ_of_lt hlt)]
  · rw [if_neg hlt, if_neg (by omega)]

/-- The packed value of a rank is the first that rank 0 sends to it. Nothing is sent to rank 0 itself. -/
theorem root_follows (herror : ∀ e : MeshError, e.OfTraffic → error e) (hrank : rank < size)
    (hvalue : 0 < rank → value rank size = .ok a ∧ packer.pack a = .ok data) :
    (root packer tag size value).Follows error 0 ⟨0, rank, tag⟩ (listed data rank 1)
      fun found ms => value 0 size = .ok found ∧ ms = [] := by
  have hbody : ∀ i < 1 + (size - 1), ∀ (state : List Request × Option MeshError) (ms : List Bytes),
      (∀ e, state.2 = some e → error e) ∧ ms = listed data rank i ∧ 0 < i →
      (sendTo packer tag size value i state).Follows error 0 ⟨0, rank, tag⟩ ms fun state ms =>
        (∀ e, state.2 = some e → error e) ∧ ms = listed data rank (i + 1) ∧ 0 < i + 1 := by
    rintro i - state _ ⟨hstate, rfl, hpos⟩
    by_cases hturn : i = rank
    · subst hturn
      obtain ⟨hvalue, hpack⟩ := hvalue hpos
      rw [listed, if_neg (Nat.lt_irrefl i)]
      refine (sendTo_follows hvalue hpack hstate).mono fun state ms h => ⟨h.1, ?_, Nat.succ_pos i⟩
      rw [h.2, listed, if_pos (Nat.lt_succ_self i)]
    · refine (sendTo_follows_of_ne hturn herror hstate).mono fun state ms h => ⟨h.1, ?_, Nat.succ_pos i⟩
      rw [h.2, listed_succ hturn]
  unfold root
  refine .fault_bind fun _ _ => (Comm.Follows.countFrom ⟨nofun, rfl, Nat.one_pos⟩ hbody).bind ?_
  rintro state _ ⟨hstate, rfl, -⟩
  -- By then all messages have been sent.
  have hsent : listed data rank (1 + (size - 1)) = [] := if_pos (by omega)
  rw [hsent]
  have hrest : (do
      let _ ← liftM (Program.completeAll state.1)
      Comm.reportAny state.2
      liftM (value 0 size) : Comm α).Ensures error fun found => value 0 size = .ok found :=
    (Comm.Ensures.of_program _).andThen fun _ =>
      (Comm.Ensures.reportAny hstate).andThen fun _ => .of_fault fun _ h => h
  exact hrest.follows

/-! ## The other ranks -/

theorem receive_follows {length : Nat} {missing : TrafficError} {m : Bytes} :
    (receive tag length missing).Follows error rank ⟨0, rank, tag⟩ (m :: ms)
      fun message ms' => message = m.take length ∧ ms' = ms := by
  refine .lift_bind (.lift_bind ?_)
  show Takes (Request.takes? rank ⟨0, rank, tag⟩ (.receive 0 tag length)) _ (m :: ms)
  rw [Request.takes?, if_pos rfl]
  exact ⟨rfl, rfl⟩

/-- A rank that finds the packed value returns it, whatever length it was told before. -/
theorem leaf_follows (hdata : packer.Delimits a data)
    (herror : ∀ e : MeshError, e.OfTraffic → error e) :
    (leaf packer tag rank).Follows error rank ⟨0, rank, tag⟩ (messages (.ok data))
      fun found ms => found = a ∧ ms = [] := by
  unfold leaf
  refine receive_follows.bind ?_
  rintro announced _ ⟨-, rfl⟩
  refine .check_bind (fun length _ => ?_) (reported_of_mapError fun _ => herror _ trivial)
  split
  · exact herror _ trivial
  · refine .fault_bind fun _ _ => receive_follows.bind ?_
    rintro message _ ⟨rfl, rfl⟩
    refine .check_bind (fun _ _ => ?_) (reported_of_mapError fun _ => herror _ trivial)
    by_cases hwhole : data.take length = data
    · have hread := hdata.unpack_append []
      rw [List.append_nil] at hread
      rw [hwhole, hread]
      exact .pure ⟨rfl, rfl⟩
    · obtain ⟨cause, hcause⟩ := hdata.unpack_cut _ (List.take_prefix ..) hwhole
      rw [hcause]
      exact herror _ trivial

end OneToAll

end HaloMesh
