-- SUMMARY: Which messages of a peer make a rank fault in a collective, and that all others do not.
import HaloMesh.Collective.OneToAll
import HaloMesh.Proofs.Collective.Offers
import HaloMesh.Proofs.Comm.Transport

/-!
# Traffic that the library would not send

Here the peers of a rank are not trusted: the transport may answer every receive with nothing or with
any bytes. A missing message, a message of the wrong length and an unknown status are errors. A count
exchange never faults. But a length that a peer announces becomes the size of a buffer before any byte
of the value is seen, so a rank faults exactly if it is told to expect a value that no buffer can
hold, or if it has announced one itself and then cannot pack it.
-/

namespace HaloMesh

variable {α : Type} {transport : Transport} {h : History}

/-! ## Lengths from the wire -/

/-- The length of a frame has to be the size of a buffer. -/
theorem Frame.sizeFor_eq_error_iff {n : Nat} :
    (∃ cause, sizeFor n = .error cause) ↔ Word.bufferLimit < n + 1 := by
  by_cases hle : n + 1 ≤ Word.bufferLimit
  · rw [AllToAll.sizeFor_eq_ok hle]
    simp [Nat.not_lt.mpr hle]
  · refine iff_of_true ?_ (Nat.lt_of_not_le hle)
    by_cases hlt : n + 1 < Word.limit
    · refine ⟨.capacity, ?_⟩
      rw [sizeFor, Word.add_of_lt hlt, Checked.ok_bind, Word.reserve, if_neg hle]
      rfl
    · refine ⟨.overflow .add, ?_⟩
      rw [sizeFor, Word.add, if_neg hlt]
      rfl

namespace OneToAll

variable {packer : Packer α} {tag rank : Nat}

/-! ## Values from the root -/

section Receive

variable {length : Nat} {missing : TrafficError}

theorem receive_ends {message : Bytes}
    (hmessage : transport (.posted (.receive 0 tag length) :: h) 0 tag length = some message) :
    ∃ after, (receive tag length missing).Ends transport h message after := by
  have hcomplete := @Comm.Ends.complete transport (.posted (.receive 0 tag length) :: h)
    (.receive 0 tag length)
  simp only [Program.outcome, hmessage] at hcomplete
  exact ⟨_, (Comm.Ends.issue _).bind (hcomplete.bind (.pure message))⟩

theorem receive_reports
    (hmessage : transport (.posted (.receive 0 tag length) :: h) 0 tag length = none) :
    (receive tag length missing).Reports transport h (.communication 0 missing) := by
  have hcomplete := @Comm.Ends.complete transport (.posted (.receive 0 tag length) :: h)
    (.receive 0 tag length)
  simp only [Program.outcome, hmessage] at hcomplete
  exact (Comm.Ends.issue _).bind_reports (hcomplete.bind_reports rfl)

theorem not_faults_receive : ¬ (receive tag length missing).Faults transport h := by
  cases hmessage : transport (.posted (.receive 0 tag length) :: h) 0 tag length with
  | none => exact (receive_reports hmessage).not_faults
  | some message =>
    obtain ⟨after, hreceive⟩ := @receive_ends _ h tag length missing message hmessage
    exact hreceive.not_faults

end Receive

/-- A rank that waits for its value faults exactly if it is told to expect one that no buffer can
hold. -/
theorem leaf_faults_iff : (leaf packer tag rank).Faults transport h ↔
    ∃ message length, transport (.posted (.receive 0 tag WireLength.size) :: h) 0 tag WireLength.size =
        some message ∧ WireLength.decode message = .ok length ∧ length ≠ WireLength.failed ∧
      Word.bufferLimit < length := by
  unfold leaf
  cases hmessage : transport (.posted (.receive 0 tag WireLength.size) :: h) 0 tag WireLength.size with
  | none => simp [((receive_reports hmessage).bind _).not_faults]
  | some message =>
    obtain ⟨after, hreceive⟩ := @receive_ends _ h tag _ .missingLength message hmessage
    rw [hreceive.faults_bind_iff]
    cases hdecode : WireLength.decode message with
    | error cause =>
      have hreport : (liftM (Except.mapError (MeshError.communication 0) (.error cause)) : Comm Nat).Reports
        transport after (.communication 0 cause) := .of_error rfl
      simp [(hreport.bind _).not_faults, hdecode]
    | ok length =>
      have hlength : (liftM (Except.mapError (MeshError.communication 0) (.ok length)) : Comm Nat).Ends
        transport after length after := .of_error rfl
      rw [hlength.faults_bind_iff]
      by_cases hfailed : length = WireLength.failed
      · rw [if_pos hfailed]
        simp [((Comm.Reports.report _).bind _).not_faults, hdecode, hfailed]
      · rw [if_neg hfailed]
        by_cases hle : length ≤ Word.bufferLimit
        · rw [(Comm.Ends.of_fault (Word.reserve_eq_ok_iff.mpr hle)).faults_bind_iff]
          refine iff_of_false ?_ ?_
          · exact Comm.not_faults_bind not_faults_receive fun message _ =>
              Comm.not_faults_bind (Comm.not_faults_liftM _) fun _ _ => Comm.not_faults_liftM _
          · rintro ⟨_, other, hother, hvalue, -, hlong⟩
            cases hother
            cases hdecode.symm.trans hvalue
            exact Nat.not_lt.mpr hle hlong
        · refine iff_of_true (Comm.faults_bind_iff.mpr (.inl ?_)) ?_
          · exact Comm.faults_liftM_iff.mpr ⟨.capacity, if_neg hle⟩
          · exact ⟨message, length, rfl, hdecode, hfailed, Nat.lt_of_not_le hle⟩

end OneToAll

/-! ## Counts -/

/-- A count exchange never faults. -/
theorem not_faults_exchangeCounts {me : Member} (hme : me.rank < me.size) (tag : Nat)
    (counts : List Nat) : ¬ (exchangeCounts me tag counts).Faults transport h := by
  unfold exchangeCounts
  by_cases hlength : counts.length = me.size
  · rw [if_neg (not_not.mpr hlength)]
    have hfetch : ¬ ∃ cause, fetch counts me.rank = .error cause := by
      rw [fetch, List.getElem?_eq_getElem (hlength ▸ hme)]
      simp
    refine Comm.not_faults_bind (Comm.not_faults_lift _) fun _ _ => ?_
    refine Comm.not_faults_bind (Comm.not_faults_lift _) fun _ _ => ?_
    refine Comm.not_faults_bind (mt Comm.faults_liftM_iff.mp hfetch) fun own _ => ?_
    refine Comm.not_faults_bind (Comm.not_faults_lift _) fun replies _ => ?_
    refine Comm.not_faults_bind (Comm.not_faults_lift _) fun _ _ => ?_
    exact Comm.not_faults_bind (Comm.not_faults_reportAny _) fun _ _ => Comm.not_faults_pure _
  · rw [if_pos hlength]
    exact ((Comm.Reports.report (.invariant (.countEntries me.size counts.length))).bind _).not_faults

/-! ## Values from all ranks -/

namespace AllToAll

variable {unpack : Bytes → Except CodecError α} {me : Member} {tag : Nat} {out : Outgoing}

theorem postReceive_ends {source : Nat × Nat} (hfits : source.1 + 1 ≤ Word.bufferLimit) :
    ∃ request after, (postReceive tag source).Ends transport h request after :=
  ⟨_, _, (Comm.Ends.of_fault (sizeFor_eq_ok hfits)).bind ((Comm.Ends.issue _).bind (.pure _))⟩

theorem postReceives_faults_iff {sources : List (Nat × Nat)} :
    (sources.mapM (postReceive tag)).Faults transport h ↔
      ∃ source ∈ sources, Word.bufferLimit < source.1 + 1 := by
  refine Comm.faults_mapM_iff (fun source _ hlong h => ?_) fun source _ hfits h => ?_
  · refine Comm.faults_bind_iff.mpr (.inl ?_)
    exact Comm.faults_liftM_iff.mpr (Frame.sizeFor_eq_error_iff.mpr hlong)
  · exact postReceive_ends (Nat.le_of_not_lt hfits)

theorem deliver_ends (sent : Sent) (dest : Nat) (frame : Bytes) :
    ∃ sent' after, (sent.deliver me tag dest frame).Ends transport h sent' after := by
  unfold Sent.deliver
  split
  · exact ⟨_, _, .pure _⟩
  · exact ⟨_, _, (Comm.Ends.issue _).bind (.pure _)⟩

/-- A rank announced a value that it then cannot pack, with a length that no buffer can have. -/
def Overstated (out : Outgoing) (dest : Nat × Nat) : Prop :=
  dest.1 ≠ 0 ∧ (∃ error, packedFor out dest.2 dest.1 = .error error) ∧ Word.bufferLimit < dest.1 + 1

theorem sendAll_faults_iff {dests : List (Nat × Nat)} {sent : Sent} :
    (dests.foldlM (sendTo me tag out) sent).Faults transport h ↔ ∃ dest ∈ dests, Overstated out dest := by
  refine Comm.faults_foldlM_iff (fun dest _ hbad sent h => ?_) fun dest _ hgood sent h => ?_
  · obtain ⟨hcount, ⟨error, hpacked⟩, hlong⟩ := hbad
    rw [sendTo, if_neg hcount, hpacked]
    rw [(Comm.Ends.lift (Program.record ..)).faults_bind_iff, Comm.faults_bind_iff]
    refine .inl (Comm.faults_liftM_iff.mpr ?_)
    obtain ⟨cause, hcause⟩ := Frame.sizeFor_eq_error_iff.mpr hlong
    exact ⟨cause, by rw [Frame.failed, hcause]; rfl⟩
  · rw [sendTo]
    by_cases hcount : dest.1 = 0
    · rw [if_pos hcount]
      exact ⟨_, _, .pure _⟩
    · rw [if_neg hcount]
      cases hpacked : packedFor out dest.2 dest.1 with
      | ok data => exact deliver_ends sent dest.2 _
      | error error =>
        have hfits : dest.1 + 1 ≤ Word.bufferLimit :=
          Nat.le_of_not_lt fun hlong => hgood ⟨hcount, ⟨error, hpacked⟩, hlong⟩
        obtain ⟨sent', after, hends⟩ := deliver_ends { sent with error := firstError sent.error error }
          dest.2 (Frame.failedStatus :: Bytes.zeros dest.1)
        exact ⟨sent', after, (Comm.Ends.lift (Program.record ..)).bind
          ((Comm.Ends.of_fault (failed_eq_ok hfits)).bind hends)⟩

theorem payloadFromReply_ne_fault {source count : Nat} (hfits : count + 1 ≤ Word.bufferLimit)
    (reply : Option Bytes) (cause : Fault) :
    payloadFromReply source count reply ≠ .error (.fault cause) := by
  intro hreply
  cases reply with
  | none => cases hreply
  | some frame =>
    rw [payloadFromReply, Frame.unwrap, Word.add_of_lt (Word.lt_limit_of_le hfits),
      Checked.ok_bind] at hreply
    change Except.mapError _ (expectLength frame.length (count + 1) >>= fun _ => Frame.payload frame) = _
      at hreply
    cases hpayload : expectLength frame.length (count + 1) >>= fun _ => Frame.payload frame with
    | ok payload =>
      rw [hpayload] at hreply
      cases hreply
    | error cause =>
      rw [hpayload] at hreply
      cases hreply

theorem awaitFrame_ends {count source : Nat} (hfits : count + 1 ≤ Word.bufferLimit)
    (state : List (Nat × Bytes) × Option MeshError) (request : Request) :
    ∃ state' after, (awaitFrame state ((count, source), request)).Ends transport h state' after := by
  have hcomplete := @Comm.Ends.complete transport h request
  generalize Program.outcome transport h request = reply at hcomplete
  unfold awaitFrame
  cases hpayload : payloadFromReply source count reply with
  | ok payload =>
    refine ⟨(state.1 ++ [(source, payload)], state.2), .completed request reply :: h,
      hcomplete.bind ?_⟩
    rw [hpayload]
    exact .pure _
  | error failure =>
    cases failure with
    | reported error =>
      refine ⟨(state.1, firstError state.2 error), .completed request reply :: h, hcomplete.bind ?_⟩
      rw [hpayload]
      exact .pure _
    | fault cause => exact absurd hpayload (payloadFromReply_ne_fault hfits reply cause)

theorem exists_announced_iff {incoming : List Nat} :
    (∃ source ∈ announced me incoming, Word.bufferLimit < source.1 + 1) ↔
      ∃ source count, source ≠ me.rank ∧ incoming[source]? = some count ∧
        Word.bufferLimit < count + 1 := by
  simp only [announced, List.mem_filter, List.mem_zipIdx_iff_getElem?, bne_iff_ne, Bool.and_eq_true,
    decide_eq_true_eq, Prod.exists]
  constructor
  · rintro ⟨count, source, ⟨hcount, hne, -⟩, hlong⟩
    exact ⟨source, count, hne, hcount, hlong⟩
  · rintro ⟨source, count, hne, hcount, hlong⟩
    unfold Word.bufferLimit at hlong ⊢
    exact ⟨count, source, ⟨hcount, hne, by omega⟩, hlong⟩

theorem exists_overstated_iff {size : Nat} :
    (∃ dest ∈ ((List.range size).map out.count).zipIdx, Overstated out dest) ↔
      ∃ dest < size, out.count dest ≠ 0 ∧
        (∃ error, packedFor out dest (out.count dest) = .error error) ∧
          Word.bufferLimit < out.count dest + 1 := by
  simp only [zipIdx_map_range, List.mem_map, List.mem_range, exists_exists_and_eq_and, Overstated]

theorem awaitFrames_ends {sources : List (Nat × Nat)} {receives : List Request}
    (hfits : ∀ source ∈ sources, source.1 + 1 ≤ Word.bufferLimit)
    (state : List (Nat × Bytes) × Option MeshError) : ∃ state' after,
      ((sources.zip receives).foldlM awaitFrame state).Ends transport h state' after :=
  Comm.Ends.foldlM fun receive hreceive state _ =>
    awaitFrame_ends (hfits _ (List.of_mem_zip hreceive).1) state receive.2

end AllToAll

open AllToAll in
/-- A rank of an exchange of values faults exactly if all counts arrive and one of them, or one of its
own that it cannot keep, is more than a frame can have. -/
theorem allToAll_faults_iff {unpack : Bytes → Except CodecError α} {me : Member}
    (hme : me.rank < me.size) (hwords : 8 * me.size ≤ Word.bufferLimit) {tag : Nat} {out : Outgoing} :
    (allToAll unpack me tag out).Faults transport h ↔
      ∃ incoming after,
        (exchangeCounts me tag ((List.range me.size).map out.count)).Ends transport h incoming after ∧
        ((∃ source count, source ≠ me.rank ∧ incoming[source]? = some count ∧
            Word.bufferLimit < count + 1) ∨
          ∃ dest < me.size, out.count dest ≠ 0 ∧
            (∃ error, packedFor out dest (out.count dest) = .error error) ∧
            Word.bufferLimit < out.count dest + 1) := by
  have hcounts : outgoingCounts me out = .ok ((List.range me.size).map out.count) := by
    rw [outgoingCounts, Word.reserve_eq_ok_iff.mpr hwords]
    rfl
  unfold allToAll
  rw [(Comm.Ends.of_fault hcounts).faults_bind_iff, Comm.faults_bind_iff,
    or_iff_right (not_faults_exchangeCounts hme tag _)]
  refine exists_congr fun incoming => exists_congr fun after => and_congr_right fun _ => ?_
  rw [← exists_announced_iff, ← exists_overstated_iff]
  by_cases hlong : ∃ source ∈ announced me incoming, Word.bufferLimit < source.1 + 1
  · refine iff_of_true (Comm.faults_bind_iff.mpr (.inl ?_)) (.inl hlong)
    exact postReceives_faults_iff.mpr hlong
  · have hfits : ∀ source ∈ announced me incoming, source.1 + 1 ≤ Word.bufferLimit :=
      fun source hsource => Nat.le_of_not_lt fun hlt => hlong ⟨source, hsource, hlt⟩
    obtain ⟨receives, posted, hpost⟩ := @Comm.Ends.mapM _ _ transport after _
      (postReceive (tagOffset tag 1)) fun source hsource h => postReceive_ends (hfits source hsource)
    -- Once all receives are posted, only a frame of its own can make the rank fault.
    rw [hpost.faults_bind_iff, or_iff_right hlong, Comm.faults_bind_iff, sendAll_faults_iff, or_iff_left]
    rintro ⟨sent, later, -, hfaults⟩
    obtain ⟨state, last, hawait⟩ := awaitFrames_ends hfits ([], sent.error)
    rw [hawait.faults_bind_iff] at hfaults
    refine absurd hfaults (Comm.not_faults_bind (Comm.not_faults_lift _) fun _ _ => ?_)
    exact Comm.not_faults_bind (Comm.not_faults_reportAny _) fun _ _ => Comm.not_faults_liftM _

/-! ## All collectives -/

/-- Which traffic makes a rank of a group fault. A rank other than the root faults in the distribution
of values exactly if the first message announces a length that is more than a buffer can have and does
not stand for a failure. No rank faults in an exchange of counts. A rank faults in an exchange of
values exactly if all counts arrive and one of them, or one of its own that it cannot keep, is more
than a frame can have. -/
theorem collectives_fault_iff {n : Nat} {members : List Member}
    (hmembers : Member.world n = .ok members) {me : Member} (hme : me ∈ members) (tag : Nat)
    (packer : Packer α) (value : Nat → Nat → Except Fault α) (counts : List Nat) (out : Outgoing)
    (transport : Transport) (h : History) :
    (me.rank ≠ 0 → ((oneToAll packer me tag value).Faults transport h ↔
      ∃ message length,
        transport (.posted (.receive 0 tag WireLength.size) :: h) 0 tag WireLength.size = some message ∧
        WireLength.decode message = .ok length ∧ length ≠ WireLength.failed ∧
        Word.bufferLimit < length)) ∧
    ¬ (exchangeCounts me tag counts).Faults transport h ∧
    ((allToAll packer.unpack me tag out).Faults transport h ↔
      ∃ incoming after,
        (exchangeCounts me tag ((List.range me.size).map out.count)).Ends transport h incoming after ∧
        ((∃ source count, source ≠ me.rank ∧ incoming[source]? = some count ∧
            Word.bufferLimit < count + 1) ∨
          ∃ dest < me.size, out.count dest ≠ 0 ∧
            (∃ error, AllToAll.packedFor out dest (out.count dest) = .error error) ∧
            Word.bufferLimit < out.count dest + 1)) := by
  obtain ⟨hgroup, rfl⟩ := Member.world_eq_ok_iff.mp hmembers
  obtain ⟨rank, hrank, rfl⟩ := List.mem_map.mp hme
  have hlt : rank < n := List.mem_range.mp hrank
  have hwords : 8 * n ≤ Word.bufferLimit := by omega
  refine ⟨fun hroot => ?_, not_faults_exchangeCounts hlt tag counts, allToAll_faults_iff hlt hwords⟩
  rw [oneToAll, if_neg hroot]
  exact OneToAll.leaf_faults_iff

/-- Rank 1 of two, with a peer that announces `2 ^ 63` bytes for one collective and more for the next. -/
theorem collectives_fault_iff_of_two :
    let transport : Transport := fun _ _ tag _ =>
      some (WireLength.encode (if tag = OneToAll.defaultTag then 0x8000000000000000 else WireLength.failed))
    let out := Offer.outgoing Item.packer fun _ => ⟨0, .text ""⟩
    Member.world 2 = .ok (Member.all 2) ∧ (⟨1, 2⟩ : Member) ∈ Member.all 2 ∧
      (oneToAll Item.packer ⟨1, 2⟩ OneToAll.defaultTag fun _ _ => .ok (.text "")).Faults transport [] ∧
      ¬ (exchangeCounts ⟨1, 2⟩ AllToAll.defaultTag [0, 0]).Faults transport [] ∧
      (allToAll Item.packer.unpack ⟨1, 2⟩ AllToAll.defaultTag out).Faults transport [] := by
  intro transport out
  have hme : (⟨1, 2⟩ : Member) ∈ Member.all 2 := by decide
  have hfirst := collectives_fault_iff (n := 2) rfl hme OneToAll.defaultTag Item.packer
    (fun _ _ => .ok (.text "")) [0, 0] out transport []
  have hsecond := collectives_fault_iff (n := 2) rfl hme AllToAll.defaultTag Item.packer
    (fun _ _ => .ok (.text "")) [0, 0] out transport []
  refine ⟨rfl, hme, (hfirst.1 (by decide)).mpr ?_, hsecond.2.1, hsecond.2.2.mpr ?_⟩
  · exact ⟨_, 0x8000000000000000, rfl, rfl, by decide, by decide⟩
  · exact ⟨[WireLength.failed, 0], _, rfl, .inl ⟨0, WireLength.failed, by decide, rfl, by decide⟩⟩

/-- An announced length of `2 ^ 63` is asked for as a buffer, and an announced count of `2 ^ 64 - 1` is
incremented. -/
theorem collectives_fault_on_long_lengths :
    let transport : Transport := fun _ _ tag _ =>
      some (WireLength.encode (if tag = OneToAll.defaultTag then 0x8000000000000000 else WireLength.failed))
    let out := Offer.outgoing Item.packer fun _ => ⟨0, .text ""⟩
    ((oneToAll Item.packer ⟨1, 2⟩ OneToAll.defaultTag fun _ _ => .ok (.text "")).run.runOver
        transport []).1 = .error (.fault .capacity) ∧
      ((allToAll Item.packer.unpack ⟨1, 2⟩ AllToAll.defaultTag out).run.runOver transport []).1 =
        .error (.fault (.overflow .add)) := by
  exact ⟨by rfl, by rfl⟩

end HaloMesh
