-- SUMMARY: Over any transport an exchange of values accepts complete traffic only, and waits for all that it posted.
import HaloMesh.Proofs.Collective.Inbound

/-!
# Acceptance

Here a rank takes part in an exchange of values over a transport that may hand it anything. The course of
the exchange is given by the inbound traffic. If all counts arrive, frames of the announced sizes go out,
whatever becomes of the own values and of the frames of others, and every request that was posted is
waited for. The exchange returns values exactly if the traffic is complete, and reports an error otherwise.
-/

namespace HaloMesh

open AllToAll

/-! ## Requests -/

namespace AllToAll

variable (me : Member) (tag : Nat) (out : Outgoing)

/-- The receives of the counts. -/
def countReceives : List Request := me.peers.map fun peer => .receive peer tag WireLength.size

/-- The messages with the counts. -/
def countMessages : List (Nat × Nat × Bytes) :=
  me.peers.map fun peer => (peer, tag, WireLength.encode (out.count peer))

/-- The messages with the frames, for the peers that have a value coming. -/
def frameMessages : List (Nat × Nat × Bytes) :=
  (Parcel.toPeers me.peers (tagOffset tag 1) out.frame).map fun p => (p.peer, p.tag, p.bytes)

/-- Requests to send messages. -/
def sending (messages : List (Nat × Nat × Bytes)) : List Request :=
  messages.map fun (peer, tag, payload) => .send peer tag payload

/-- The requests of the exchange of counts, in the order in which they are posted. -/
def countRequests : List Request := countReceives me tag ++ sending (countMessages me tag out)

/-- What is logged of an own value that cannot be packed. -/
def complaint (dest : Nat) : List LogRecord :=
  ((out.sendError dest).map fun error => ⟨.error,
    s!"all_to_allv: rank {me.rank} cannot pack the value for rank {dest}: {error.message}"⟩).toList

/-- The events of sending the frame for a rank. -/
def shipment (dest : Nat) : List Event :=
  (complaint me out dest).map .logged ++
    History.posts ((parcelTo me (tagOffset tag 1) out dest).map fun p => .send p.peer p.tag p.bytes)

end AllToAll

namespace Inbound

variable (inbound : Inbound) (me : Member) (tag : Nat) (out : Outgoing)

/-- The receives of the frames, each of the announced size. -/
def frameReceives : List Request :=
  (inbound.senders me out).map fun peer =>
    .receive peer (tagOffset tag 1) (inbound.announced me out peer + 1)

/-- The events of the exchange of counts. -/
def countEvents : List Event :=
  History.posts (countRequests me tag out) ++
    History.completions ((countReceives me tag).zip (me.peers.map inbound.count) ++
      (sending (countMessages me tag out)).map (·, none))

/-- The events of the exchange of frames. -/
def frameEvents : List Event :=
  History.posts (inbound.frameReceives me tag out) ++
    (List.range me.size).flatMap (shipment me tag out) ++
      History.completions
        ((inbound.frameReceives me tag out).zip ((inbound.senders me out).map inbound.frame) ++
          (sending (frameMessages me tag out)).map (·, none))

/-- The events of the exchange. Frames follow only if all counts arrived. -/
def events : List Event :=
  inbound.countEvents me tag out ++
    if inbound.Counted me then inbound.frameEvents me tag out else []

end Inbound

/-! ## The exchange of counts -/

section
variable {me : Member} {tag : Nat} {out : Outgoing} {transport : Transport} {h : History}

theorem exists_of_mem_sending {messages : List (Nat × Nat × Bytes)} :
    ∀ request ∈ sending messages, ∃ peer tag payload, request = .send peer tag payload := by
  intro request hrequest
  obtain ⟨⟨peer, tag, payload⟩, -, rfl⟩ := List.mem_map.mp hrequest
  exact ⟨peer, tag, payload, rfl⟩

/-- Sends are waited for, and yield nothing. -/
theorem completeSends_comes (messages : List (Nat × Nat × Bytes)) :
    Comm.Comes (liftM (Program.completeAll (sending messages))) transport h
      (History.completions ((sending messages).map (·, none)))
      (.ok ((sending messages).map fun _ => none)) :=
  .lift (Program.runOver_completeAll_send exists_of_mem_sending)

/-- All requests of the exchange of counts are completed before a reply that is no count is reported. -/
theorem exchangeCounts_over (hme : me.rank < me.size) {inbound : Inbound}
    (hreplies : transport.replies (h.extend (History.posts (countRequests me tag out)))
      (countReceives me tag) = me.peers.map inbound.count) :
    (exchangeCounts me tag ((List.range me.size).map out.count)).Comes transport h
      (inbound.countEvents me tag out)
      (match countsFromReplies (me.peers.map fun peer => (peer, inbound.count peer)) with
        | (_, some error) => .error (.reported error)
        | (received, none) => .ok ((List.range me.size).map fun r =>
            if r = me.rank then out.count me.rank else (received.lookup r).getD 0)) := by
  have hlength : ((List.range me.size).map out.count).length = me.size := by simp
  have hfetch : fetch ((List.range me.size).map out.count) me.rank = .ok (out.count me.rank) :=
    fetch_eq_ok_iff.mpr (by simp [hme])
  have hsends : (me.peers.map fun peer => Request.send peer tag
      (WireLength.encode (((List.range me.size).map out.count).getD peer 0))) =
        sending (countMessages me tag out) := by
    rw [sending, countMessages, List.map_map]
    refine List.map_congr_left fun peer hpeer => ?_
    simp [(Member.mem_peers.mp hpeer).1]
  have hposts : History.posts (countRequests me tag out) = History.posts (countReceives me tag) ++
      History.posts (sending (countMessages me tag out)) := List.map_append
  have hcomplete := (Program.runOver_completeAll transport
    (h.extend (History.posts (countRequests me tag out))) (countReceives me tag)).1
  rw [hreplies, hposts, History.extend_append] at hcomplete
  unfold exchangeCounts
  rw [if_neg (not_not.mpr hlength), hsends, Inbound.countEvents, hposts, History.completions,
    List.map_append, List.append_assoc]
  refine (Comm.Comes.issueAll _).bind ?_
  refine (Comm.Comes.issueAll _).bind ?_
  refine (Comm.Comes.of_fault hfetch).bind_silent ?_
  refine (Comm.Comes.lift hcomplete).bind ?_
  refine (completeSends_comes _).then_silent ?_
  rw [← List.map_prod_left_eq_zip]
  obtain ⟨received, error⟩ := countsFromReplies (me.peers.map fun peer => (peer, inbound.count peer))
  cases error with
  | some error => exact (Comm.Comes.reportAny (some error)).fail _
  | none => exact (Comm.Comes.reportAny none).bind_silent (.pure _)

/-- If all counts arrive, the rank knows what every other rank announced. -/
theorem exchangeCounts_comes (hme : me.rank < me.size) {inbound : Inbound}
    (hreplies : transport.replies (h.extend (History.posts (countRequests me tag out)))
      (countReceives me tag) = me.peers.map inbound.count) (hcounted : inbound.Counted me) :
    (exchangeCounts me tag ((List.range me.size).map out.count)).Comes transport h
      (inbound.countEvents me tag out) (.ok ((List.range me.size).map (inbound.announced me out))) := by
  have hcourse := exchangeCounts_over hme hreplies
  rw [countsFromReplies_eq hcounted] at hcourse
  have hcounts : ((List.range me.size).map fun r => if r = me.rank then out.count me.rank else
      ((me.peers.map fun peer =>
        (peer, ((inbound.count peer).map LittleEndian.value).getD 0)).lookup r).getD 0) =
      (List.range me.size).map (inbound.announced me out) := by
    refine List.map_congr_left fun r hr => ?_
    rw [Inbound.announced]
    by_cases hown : r = me.rank
    · rw [if_pos hown, if_pos hown, hown]
    · rw [if_neg hown, if_neg hown, Checked.lookup_map,
        if_pos (Member.mem_peers.mpr ⟨List.mem_range.mp hr, hown⟩), Option.getD_some]
  rw [← hcounts]
  exact hcourse

/-- If a count does not arrive, an error is reported. -/
theorem exists_exchangeCounts_error (hme : me.rank < me.size) {inbound : Inbound}
    (hreplies : transport.replies (h.extend (History.posts (countRequests me tag out)))
      (countReceives me tag) = me.peers.map inbound.count) (hcounted : ¬ inbound.Counted me) :
    ∃ error, (exchangeCounts me tag ((List.range me.size).map out.count)).Comes transport h
      (inbound.countEvents me tag out) (.error (.reported error)) := by
  have hcourse := exchangeCounts_over hme hreplies
  obtain ⟨received, error, hreceived⟩ := exists_countsFromReplies_error hcounted
  rw [hreceived] at hcourse
  exact ⟨error, hcourse⟩

/-! ## The exchange of frames -/

theorem deliver_comes (sent : Sent) (dest : Nat) (frame : Bytes) :
    (sent.deliver me tag dest frame).Comes transport h
      (History.posts (if dest = me.rank then [] else [.send dest tag frame]))
      (.ok {
        requests := sent.requests ++ if dest = me.rank then [] else [.send dest tag frame]
        own := if dest = me.rank then some frame else sent.own
        error := sent.error }) := by
  unfold Sent.deliver
  split
  · rw [List.append_nil]
    exact .pure _
  · exact (Comm.Comes.issue _).then_silent (.pure _)

/-- A frame goes out for every value, also if it cannot be packed. -/
theorem sendTo_comes (sent : Sent) {dest : Nat} (hcount : out.count dest + 1 ≤ Word.bufferLimit) :
    (sendTo me (tagOffset tag 1) out sent (out.count dest, dest)).Comes transport h
      (shipment me tag out dest) (.ok (sent.after me (tagOffset tag 1) out dest)) := by
  by_cases hzero : out.count dest = 0
  · have hcontent : out.content dest = none := if_pos hzero
    simp only [sendTo, if_pos hzero, shipment, complaint, parcelTo, Sent.after, Outgoing.sendError,
      Outgoing.frame, hcontent, Option.map_none, Option.toList_none, Option.bind_none, ite_self,
      List.map_nil, List.append_nil, Option.none_or, Option.or_none]
    exact .pure sent
  · have hcontent : out.content dest = some (packedFor out dest (out.count dest)) := if_neg hzero
    simp only [sendTo, if_neg hzero, shipment, complaint, parcelTo, Sent.after, Outgoing.sendError,
      Outgoing.frame, hcontent]
    cases packedFor out dest (out.count dest) with
    | ok data =>
      have hdeliver := @deliver_comes me (tagOffset tag 1) transport h sent dest (Frame.wrap data)
      by_cases hown : dest = me.rank
      · simpa [hown] using hdeliver
      · simpa [hown] using hdeliver
    | error error =>
      refine (Comm.Comes.record _ _).bind ?_
      refine (Comm.Comes.of_fault (failed_eq_ok hcount)).bind_silent ?_
      have hdeliver := fun h => @deliver_comes me (tagOffset tag 1) transport h
        { sent with error := firstError sent.error error } dest
        (Frame.failedStatus :: Bytes.zeros (out.count dest))
      by_cases hown : dest = me.rank
      · simpa [hown, firstError] using hdeliver _
      · simpa [hown, firstError] using hdeliver _

theorem sendAll_comes (hcount : ∀ dest < me.size, out.count dest + 1 ≤ Word.bufferLimit)
    (hme : me.rank < me.size) :
    Comm.Comes (((List.range me.size).map fun dest => (out.count dest, dest)).foldlM
        (sendTo me (tagOffset tag 1) out) ⟨[], none, none⟩) transport h
      ((List.range me.size).flatMap (shipment me tag out))
      (.ok ⟨sending (frameMessages me tag out), out.frame me.rank,
        (List.range me.size).findSome? out.sendError⟩) := by
  have hloop := @Comm.Comes.foldlM _ _ transport h
    (fun sent dest => sendTo me (tagOffset tag 1) out sent (out.count dest, dest)) (shipment me tag out)
    (Sent.after me (tagOffset tag 1) out) (List.range me.size) ⟨[], none, none⟩
    fun dest hdest sent _ => sendTo_comes sent (hcount dest (List.mem_range.mp hdest))
  rw [foldl_after, flatMap_parcelTo, if_pos (List.mem_range.mpr hme), Option.or_none] at hloop
  rw [List.foldlM_map, frameMessages, sending, List.map_map]
  exact hloop

/-- What a rank has once the frame of a peer arrived, or did not. -/
def AllToAll.absorb (announced : Nat → Nat) (state : List (Nat × Bytes) × Option MeshError)
    (entry : Nat × Option Bytes) : List (Nat × Bytes) × Option MeshError :=
  match openReply entry.1 (announced entry.1) entry.2 with
  | .ok payload => (state.1 ++ [(entry.1, payload)], state.2)
  | .error error => (state.1, firstError state.2 error)

theorem awaitFrame_comes {count peer : Nat} (hfits : count + 1 ≤ Word.bufferLimit)
    (state : List (Nat × Bytes) × Option MeshError) (request : Request) :
    (awaitFrame state ((count, peer), request)).Comes transport h
      [.completed request (Program.outcome transport h request)]
      (.ok (absorb (fun _ => count) state (peer, Program.outcome transport h request))) := by
  refine (Comm.Comes.complete request).then_silent ?_
  rw [payloadFromReply_eq hfits, absorb]
  cases openReply peer count (Program.outcome transport h request) with
  | ok payload => exact .pure _
  | error error => exact .pure _

/-- Whatever the transport replies, the replies are dealt with one after the other. -/
theorem awaitFrames_comes {announced : Nat → Nat} {peers : List Nat}
    (hfits : ∀ peer ∈ peers, announced peer + 1 ≤ Word.bufferLimit)
    (state : List (Nat × Bytes) × Option MeshError) :
    ∃ replies, replies.length = peers.length ∧
      Comm.Comes (((peers.map fun peer => (announced peer, peer)).zip
          (peers.map fun peer => Request.receive peer tag (announced peer + 1))).foldlM awaitFrame state)
        transport h
        (History.completions
          ((peers.map fun peer => Request.receive peer tag (announced peer + 1)).zip replies))
        (.ok ((peers.zip replies).foldl (absorb announced) state)) := by
  induction peers generalizing state h with
  | nil => exact ⟨[], rfl, .pure state⟩
  | cons peer peers ih =>
    have hstep := @awaitFrame_comes transport h _ peer (hfits peer (by simp)) state
      (.receive peer tag (announced peer + 1))
    obtain ⟨replies, hlength, hrest⟩ := ih (fun p hp => hfits p (by simp [hp])) _
    refine ⟨Program.outcome transport h (.receive peer tag (announced peer + 1)) :: replies,
      congrArg (· + 1) hlength, ?_⟩
    simp only [List.map_cons, List.zip_cons_cons, List.foldlM_cons, List.foldl_cons]
    exact hstep.bind hrest

theorem foldl_absorb (announced : Nat → Nat) (frame : Nat → Option Bytes) (peers : List Nat)
    (state : List (Nat × Bytes) × Option MeshError) :
    (peers.zip (peers.map frame)).foldl (absorb announced) state =
      (state.1 ++ peers.filterMap (fun peer =>
          (openReply peer (announced peer) (frame peer)).toOption.map (peer, ·)),
        state.2.or (peers.findSome? fun peer =>
          objection? (openReply peer (announced peer) (frame peer)))) := by
  induction peers generalizing state with
  | nil => simp
  | cons peer peers ih =>
    rw [List.map_cons, List.zip_cons_cons, List.foldl_cons, ih, List.filterMap_cons,
      List.findSome?_cons, absorb]
    cases openReply peer (announced peer) (frame peer) with
    | ok payload => simp [objection?, Except.toOption]
    | error error => simp [objection?, Except.toOption, firstError]

/-! ## The whole exchange -/

/-- The own payload and those of the frames, in the order of their sources. -/
theorem Inbound.payloads_eq {inbound : Inbound} (hme : me.rank < me.size)
    (herror : out.sendError me.rank = none) :
    (match out.frame me.rank with
      | some frame => insertOwn me.rank frame.tail ((inbound.senders me out).filterMap fun peer =>
          (inbound.opened me out peer).toOption.map (peer, ·))
      | none => (inbound.senders me out).filterMap fun peer =>
          (inbound.opened me out peer).toOption.map (peer, ·)) =
      (List.range me.size).filterMap fun source => (inbound.payload me out source).map (source, ·) := by
  have hsenders : (inbound.senders me out).filterMap (fun peer =>
      (inbound.opened me out peer).toOption.map (peer, ·)) = me.peers.filterMap fun peer =>
        (if inbound.announced me out peer = 0 then none
          else (inbound.opened me out peer).toOption).map (peer, ·) := by
    rw [Inbound.senders, List.filterMap_filter]
    refine List.filterMap_congr fun peer _ => ?_
    by_cases hzero : inbound.announced me out peer = 0
    · simp [hzero]
    · simp [hzero]
  rw [hsenders]
  exact insertOwn_payloads hme herror _

/-- The end of the exchange, when all requests are completed. -/
theorem result_comes {α : Type} {unpack : Bytes → Except CodecError α} {inbound : Inbound}
    (hme : me.rank < me.size) :
    Comm.Comes (do
      Comm.reportAny (inbound.error me out)
      let payloads :=
        match out.frame me.rank with
        | some frame => insertOwn me.rank frame.tail ((inbound.senders me out).filterMap fun peer =>
            (inbound.opened me out peer).toOption.map (peer, ·))
        | none => (inbound.senders me out).filterMap fun peer =>
            (inbound.opened me out peer).toOption.map (peer, ·)
      liftM (unpackAll unpack payloads)) transport h [] (inbound.result me out unpack) := by
  rw [Inbound.result]
  cases herror : inbound.error me out with
  | some error => exact (Comm.Comes.reportAny (some error)).fail _
  | none =>
    have hown : out.sendError me.rank = none :=
      Outgoing.sendError_eq_none_iff.mpr ((Inbound.error_eq_none_iff.mp herror).1 _ hme)
    refine (Comm.Comes.reportAny none).bind_silent ?_
    rw [← inbound.payloads_eq hme hown]
    exact .of_check _

theorem postReceives_comes (inbound : Inbound)
    (hfits : ∀ peer ∈ inbound.senders me out, inbound.announced me out peer + 1 ≤ Word.bufferLimit) :
    Comm.Comes (((inbound.senders me out).map fun peer => (inbound.announced me out peer, peer)).mapM
        (postReceive (tagOffset tag 1))) transport h
      (History.posts (inbound.frameReceives me tag out)) (.ok (inbound.frameReceives me tag out)) := by
  rw [List.mapM_map, History.posts, Inbound.frameReceives, List.map_map, List.map_eq_flatMap]
  refine Comm.Comes.mapM fun peer hpeer h => ?_
  refine (Comm.Comes.of_fault (sizeFor_eq_ok (hfits peer hpeer))).bind_silent ?_
  exact (Comm.Comes.issue _).then_silent (.pure _)

/-- With all counts in, the exchange goes through its frames, whatever becomes of them. -/
theorem exists_frames_comes {α : Type} {unpack : Bytes → Except CodecError α} (hme : me.rank < me.size)
    (hown : ∀ dest < me.size, out.count dest + 1 ≤ Word.bufferLimit) (inbound : Inbound)
    (hfits : ∀ peer ∈ inbound.senders me out, inbound.announced me out peer + 1 ≤ Word.bufferLimit) :
    ∃ frame, Comm.Comes (do
      let sources := AllToAll.announced me ((List.range me.size).map (inbound.announced me out))
      let receives ← sources.mapM (postReceive (tagOffset tag 1))
      let sent ← ((List.range me.size).map out.count).zipIdx.foldlM
        (sendTo me (tagOffset tag 1) out) ⟨[], none, none⟩
      let (received, error) ← (sources.zip receives).foldlM awaitFrame ([], sent.error)
      let _ ← Program.completeAll sent.requests
      Comm.reportAny error
      let payloads :=
        match sent.own with
        | some frame => insertOwn me.rank frame.tail received
        | none => received
      liftM (unpackAll unpack payloads)) transport h
        (Inbound.frameEvents { inbound with frame := frame } me tag out)
        (Inbound.result { inbound with frame := frame } me out unpack) := by
  have hnodup : (inbound.senders me out).Nodup := (Member.nodup_peers me).filter _
  obtain ⟨replies, hlength, hawait⟩ := @awaitFrames_comes (tagOffset tag 1) transport
    ((h.extend (History.posts (inbound.frameReceives me tag out))).extend
      ((List.range me.size).flatMap (shipment me tag out)))
    (inbound.announced me out) (inbound.senders me out) hfits
    ([], (List.range me.size).findSome? out.sendError)
  obtain ⟨frame, rfl⟩ := exists_reply_of_nodup hnodup hlength
  refine ⟨frame, ?_⟩
  rw [foldl_absorb, List.nil_append] at hawait
  rw [announced_map_range, zipIdx_map_range, Inbound.frameEvents, History.completions, List.map_append,
    List.append_assoc]
  refine (postReceives_comes inbound hfits).bind ?_
  refine (sendAll_comes hown hme).bind ?_
  refine hawait.bind ?_
  refine (completeSends_comes _).then_silent ?_
  exact @result_comes me out transport _ α unpack { inbound with frame := frame } hme

/-- What a peer announced is a count that was delivered. -/
theorem Inbound.exists_decode {inbound : Inbound} (hcounted : inbound.Counted me) {peer : Nat}
    (hpeer : peer ∈ me.peers) : ∃ message, inbound.count peer = some message ∧
      WireLength.decode message = .ok (inbound.announced me out peer) := by
  obtain ⟨message, hmessage, hlength⟩ := Option.map_eq_some_iff.mp (hcounted peer hpeer)
  refine ⟨message, hmessage, ?_⟩
  rw [WireLength.decode, expectLength, if_pos hlength, announced, if_neg (Member.mem_peers.mp hpeer).2,
    hmessage]
  rfl

/-- If every delivered count is the size of a frame, a frame can have the size that a peer announced. -/
theorem Inbound.announced_fits {inbound : Inbound} (hcounted : inbound.Counted me)
    (hdelivered : ∀ message count, some message ∈ me.peers.map inbound.count →
      WireLength.decode message = .ok count → count + 1 ≤ Word.bufferLimit) :
    ∀ peer ∈ inbound.senders me out, inbound.announced me out peer + 1 ≤ Word.bufferLimit := by
  intro peer hpeer
  have hpeer := (mem_senders.mp hpeer).1
  obtain ⟨message, hmessage, hdecode⟩ := exists_decode hcounted hpeer
  exact hdelivered message _ (List.mem_map.mpr ⟨peer, hpeer, hmessage⟩) hdecode

/-- If all counts arrive, the rest of the exchange hangs on the frames. -/
theorem exists_comes_of_counted {α : Type} {unpack : Bytes → Except CodecError α} (hme : me.rank < me.size)
    (hcounts : outgoingCounts me out = .ok ((List.range me.size).map out.count))
    (hown : ∀ dest < me.size, out.count dest + 1 ≤ Word.bufferLimit) {inbound : Inbound}
    (hreplies : transport.replies (h.extend (History.posts (countRequests me tag out)))
      (countReceives me tag) = me.peers.map inbound.count) (hcounted : inbound.Counted me)
    (hfits : ∀ peer ∈ inbound.senders me out, inbound.announced me out peer + 1 ≤ Word.bufferLimit) :
    ∃ frame, (allToAll unpack me tag out).Comes transport h
      (Inbound.events { inbound with frame := frame } me tag out)
      (Inbound.result { inbound with frame := frame } me out unpack) := by
  obtain ⟨frame, hframes⟩ := @exists_frames_comes me tag out transport
    (h.extend (inbound.countEvents me tag out)) α unpack hme hown inbound hfits
  replace hcounted : Inbound.Counted { inbound with frame := frame } me := hcounted
  refine ⟨frame, ?_⟩
  rw [Inbound.events, if_pos hcounted]
  refine (Comm.Comes.of_fault hcounts).bind_silent ?_
  exact (exchangeCounts_comes hme hreplies hcounted).bind hframes

/-- The inbound traffic decides on the course of the exchange and on its result. -/
theorem exists_course {α : Type} {unpack : Bytes → Except CodecError α} (hme : me.rank < me.size)
    (hwords : 8 * me.size ≤ Word.bufferLimit)
    (hown : ∀ dest < me.size, out.count dest + 1 ≤ Word.bufferLimit)
    (hdelivered : ∀ message count,
      some message ∈ transport.replies (h.extend (History.posts (countRequests me tag out)))
        (countReceives me tag) →
      WireLength.decode message = .ok count → count + 1 ≤ Word.bufferLimit) :
    ∃ inbound : Inbound, ∃ result,
      (allToAll unpack me tag out).Comes transport h (inbound.events me tag out) result ∧
      (∀ values, result = .ok values ↔ inbound.Complete me out unpack values) ∧
      ((∃ values, result = .ok values) ∨ ∃ error, result = .error (.reported error)) := by
  have hcounts : outgoingCounts me out = .ok ((List.range me.size).map out.count) := by
    rw [outgoingCounts, Word.reserve_eq_ok_iff.mpr hwords]
    rfl
  obtain ⟨count, hreplies⟩ := exists_reply_of_nodup (Member.nodup_peers me)
    ((Program.runOver_completeAll transport (h.extend (History.posts (countRequests me tag out)))
      (countReceives me tag)).2.trans (List.length_map _))
  -- Whether all counts arrive does not hang on the frames, which are only asked for later.
  let inbound : Inbound := ⟨count, fun _ => none⟩
  by_cases hcounted : inbound.Counted me
  · rw [hreplies] at hdelivered
    obtain ⟨frame, hcourse⟩ := exists_comes_of_counted hme hcounts hown hreplies hcounted
      (Inbound.announced_fits hcounted hdelivered)
    exact ⟨⟨count, frame⟩, _, hcourse, fun values => Inbound.result_eq_ok_iff hcounted,
      Inbound.result_cases⟩
  · obtain ⟨error, hfails⟩ := exists_exchangeCounts_error hme hreplies hcounted
    refine ⟨inbound, _, ?_, fun values => ?_, .inr ⟨error, rfl⟩⟩
    · rw [Inbound.events, if_neg hcounted, List.append_nil]
      exact (Comm.Comes.of_fault hcounts).bind_silent (hfails.fail _)
    · refine iff_of_false (fun hok => ?_) fun hcomplete => hcounted hcomplete.counted
      cases hok

/-! ## What is posted, awaited and sent -/

theorem posted_shipments : History.posted ((List.range me.size).flatMap (shipment me tag out)) =
    sending (frameMessages me tag out) := by
  have hshipment : ∀ dest, (shipment me tag out dest).filterMap Event.posted? =
      (parcelTo me (tagOffset tag 1) out dest).map fun p => .send p.peer p.tag p.bytes := by
    intro dest
    have hlogs : ((complaint me out dest).map Event.logged).filterMap Event.posted? = [] := by
      rw [List.filterMap_map]
      exact List.filterMap_eq_nil_iff.mpr fun _ _ => rfl
    rw [shipment, List.filterMap_append, hlogs, List.nil_append]
    exact History.posted_posts _
  rw [History.posted, List.filterMap_flatMap]
  simp only [hshipment]
  rw [← List.map_flatMap, flatMap_parcelTo, sending, frameMessages, List.map_map]
  rfl

theorem awaited_shipments : History.awaited ((List.range me.size).flatMap (shipment me tag out)) = [] := by
  refine List.filterMap_eq_nil_iff.mpr fun e he => ?_
  obtain ⟨dest, -, he⟩ := List.mem_flatMap.mp he
  rcases List.mem_append.mp he with he | he
  · obtain ⟨record, -, rfl⟩ := List.mem_map.mp he
    rfl
  · obtain ⟨request, -, rfl⟩ := List.mem_map.mp he
    rfl

namespace Inbound

variable {inbound : Inbound}

theorem posted_events : History.posted (inbound.events me tag out) = countRequests me tag out ++
    if inbound.Counted me then inbound.frameReceives me tag out ++ sending (frameMessages me tag out)
    else [] := by
  rw [events, countEvents, frameEvents]
  split
  · simp only [History.posted_append, History.posted_posts, History.posted_completions,
      posted_shipments, List.nil_append, List.append_nil, List.append_assoc]
  · simp only [History.posted_append, History.posted_posts, History.posted_completions, List.append_nil]

/-- Every request that is posted is waited for, in the order in which they are posted. -/
theorem awaited_events :
    History.awaited (inbound.events me tag out) = History.posted (inbound.events me tag out) := by
  have hcounts : ((countReceives me tag).zip (me.peers.map inbound.count)).map (·.1) =
      countReceives me tag := List.map_fst_zip (by simp [countReceives])
  have hframes : ((inbound.frameReceives me tag out).zip
      ((inbound.senders me out).map inbound.frame)).map (·.1) = inbound.frameReceives me tag out :=
    List.map_fst_zip (by simp [frameReceives])
  have hsends : ∀ messages, ((sending messages).map (·, (none : Option Bytes))).map (·.1) =
      sending messages := fun messages => by rw [List.map_map]; exact List.map_id _
  rw [posted_events, events, countEvents, frameEvents]
  split
  · simp only [History.awaited_append, History.awaited_posts, History.awaited_completions,
      awaited_shipments, List.map_append, hcounts, hframes, hsends, countRequests, List.nil_append,
      List.append_assoc]
  · simp only [History.awaited_append, History.awaited_posts, History.awaited_completions,
      List.map_append, hcounts, hsends, countRequests, List.nil_append, List.append_nil]

theorem filterMap_message_sending (messages : List (Nat × Nat × Bytes)) :
    (sending messages).filterMap Request.message? = messages := by
  rw [sending, List.filterMap_map]
  exact List.filterMap_some

theorem sent_events (h : History) (hcounted : inbound.Counted me) :
    (h.extend (inbound.events me tag out)).sent =
      h.sent ++ countMessages me tag out ++ frameMessages me tag out := by
  have hcounts : (countReceives me tag).filterMap Request.message? = [] := by
    rw [countReceives, List.filterMap_map]
    exact List.filterMap_eq_nil_iff.mpr fun _ _ => rfl
  have hframes : (inbound.frameReceives me tag out).filterMap Request.message? = [] := by
    rw [frameReceives, List.filterMap_map]
    exact List.filterMap_eq_nil_iff.mpr fun _ _ => rfl
  rw [History.sent_extend_eq, posted_events, if_pos hcounted, countRequests]
  simp only [List.filterMap_append, filterMap_message_sending, hcounts, hframes, List.nil_append,
    List.append_assoc]

end Inbound

/-- Every peer with a value gets one frame, of the announced size. -/
theorem sizes_frameMessages : (frameMessages me tag out).map (fun (dest, tag, bytes) =>
    (dest, tag, bytes.length)) = (me.peers.filter fun dest => decide (out.count dest ≠ 0)).map
      fun dest => (dest, tagOffset tag 1, out.count dest + 1) := by
  rw [frameMessages, List.map_map, Parcel.toPeers]
  induction me.peers with
  | nil => rfl
  | cons dest dests ih =>
    rw [List.filterMap_cons, List.filter_cons]
    have hframe := @Outgoing.isSome_frame out dest
    cases hdest : out.frame dest with
    | none =>
      rw [hdest, Option.isSome_none, eq_comm] at hframe
      rw [hframe]
      exact ih
    | some frame =>
      rw [hdest, Option.isSome_some, eq_comm] at hframe
      rw [hframe, Option.map_some, List.map_cons, ih]
      simp [Outgoing.length_of_frame hdest]

end

/-! ## Acceptance -/

/-- A rank of a group takes part in an exchange of values over any transport, if its own counts and those
that it is handed are sizes that a frame can have. The inbound traffic gives the course of the exchange.
It returns values exactly if the traffic is complete, and reports an error otherwise. Every request that
was posted has been waited for. Once all counts arrived, every peer with a value coming is sent one frame
of the announced size, whatever else happens. -/
theorem allToAll_accepts {α : Type} {n : Nat} {members : List Member}
    (hmembers : Member.world n = .ok members) {me : Member} (hme : me ∈ members)
    (unpack : Bytes → Except CodecError α) (tag : Nat) {out : Outgoing}
    (hown : ∀ dest < me.size, out.count dest + 1 ≤ Word.bufferLimit)
    {transport : Transport} {h : History}
    (hdelivered : ∀ message count,
      some message ∈ transport.replies (h.extend (History.posts (countRequests me tag out)))
        (countReceives me tag) →
      WireLength.decode message = .ok count → count + 1 ≤ Word.bufferLimit) :
    ∃ (inbound : Inbound) (result : Except Failure (List (Nat × α))),
      (allToAll unpack me tag out).Comes transport h (inbound.events me tag out) result ∧
      (∀ values, result = .ok values ↔ inbound.Complete me out unpack values) ∧
      ((∃ values, result = .ok values) ∨ ∃ error, result = .error (.reported error)) ∧
      History.awaited (inbound.events me tag out) = History.posted (inbound.events me tag out) ∧
      (inbound.Counted me → ∃ frames,
        (h.extend (inbound.events me tag out)).sent = h.sent ++ countMessages me tag out ++ frames ∧
        frames.map (fun (dest, tag, bytes) => (dest, tag, bytes.length)) =
          (me.peers.filter fun dest => decide (out.count dest ≠ 0)).map
            fun dest => (dest, tagOffset tag 1, out.count dest + 1)) := by
  obtain ⟨hgroup, rfl⟩ := Member.world_eq_ok_iff.mp hmembers
  obtain ⟨rank, hrank, rfl⟩ := List.mem_map.mp hme
  have hlt : rank < n := List.mem_range.mp hrank
  have hwords : 8 * n ≤ Word.bufferLimit := by omega
  obtain ⟨inbound, result, hcourse, haccepts, hreports⟩ :=
    @exists_course ⟨rank, n⟩ tag out transport h α unpack hlt hwords hown hdelivered
  exact ⟨inbound, result, hcourse, haccepts, hreports, Inbound.awaited_events, fun hcounted =>
    ⟨_, Inbound.sent_events h hcounted, sizes_frameMessages⟩⟩

/-- Rank 1 of three keeps one value, sends one to rank 0 and gets one from rank 2. -/
theorem allToAll_accepts_of_three :
    let me : Member := ⟨1, 3⟩
    let out : Outgoing :=
      ⟨fun dest => if dest = 2 then 0 else dest + 1, fun dest => .ok (.replicate (dest + 1) 7)⟩
    let transport : Transport := fun _ peer tag _ =>
      some (if tag = defaultTag then WireLength.encode (if peer = 2 then 1 else 0)
        else [Frame.okStatus, 5])
    let replies := transport.replies (History.extend [] (History.posts (countRequests me defaultTag out)))
      (countReceives me defaultTag)
    Member.world 3 = .ok (Member.all 3) ∧ me ∈ Member.all 3 ∧
      (∀ dest < me.size, out.count dest + 1 ≤ Word.bufferLimit) ∧
      (∀ message count, some message ∈ replies → WireLength.decode message = .ok count →
        count + 1 ≤ Word.bufferLimit) ∧
      ∃ inbound : Inbound, inbound.Complete me out .ok [(1, [7, 7]), (2, [5])] ∧
        (allToAll .ok me defaultTag out).Comes transport [] (inbound.events me defaultTag out)
          (.ok [(1, [7, 7]), (2, [5])]) ∧
        History.awaited (inbound.events me defaultTag out) =
          History.posted (inbound.events me defaultTag out) ∧
        ∃ frames, (History.extend [] (inbound.events me defaultTag out)).sent =
            countMessages me defaultTag out ++ frames ∧
          frames.map (fun (dest, tag, bytes) => (dest, tag, bytes.length)) = [(0, 0x0A21, 2)] := by
  intro me out transport replies
  have hme : me ∈ Member.all 3 := by decide
  have hown : ∀ dest < me.size, out.count dest + 1 ≤ Word.bufferLimit := by decide
  have hreplies : replies = [some (WireLength.encode 0), some (WireLength.encode 1)] := by rfl
  have hdelivered : ∀ message count, some message ∈ replies → WireLength.decode message = .ok count →
      count + 1 ≤ Word.bufferLimit := by
    intro message count hmessage hdecode
    rw [hreplies] at hmessage
    rcases List.mem_pair.mp hmessage with hmessage | hmessage
    · cases hmessage
      cases hdecode
      decide
    · cases hmessage
      cases hdecode
      decide
  obtain ⟨inbound, result, hcourse, haccepts, -, hawaited, hsent⟩ := @allToAll_accepts Bytes 3 _ rfl me hme
    .ok defaultTag out hown transport [] hdelivered
  have hresult : result = .ok [(1, [7, 7]), (2, [5])] :=
    (congrArg Prod.fst hcourse).symm.trans (by rfl)
  subst hresult
  have hcomplete := (haccepts _).mp rfl
  obtain ⟨frames, hframes, hsizes⟩ := hsent hcomplete.counted
  exact ⟨rfl, hme, hown, hdelivered, inbound, hcomplete, hcourse, hawaited, frames, hframes, hsizes⟩

end HaloMesh
