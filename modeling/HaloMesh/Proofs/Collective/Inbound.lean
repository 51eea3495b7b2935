-- SUMMARY: What the peers of a rank may hand it in an exchange of values, and when that makes a list of values.
import HaloMesh.Proofs.Collective.AllToAll
import HaloMesh.Proofs.Comm.Courses

/-!
# Inbound traffic

A transport may hand a rank anything in the place of a count or a frame. What it hands over is
complete if every count is one, every own value has the length that was announced, every frame that a
count announced has that length and holds its payload, and every payload can be unpacked. Here the
events of an exchange are listed as far as they depend on the inbound traffic, and its result is
computed from the traffic and found to be a list of values exactly if the traffic is complete.
-/

namespace HaloMesh

open AllToAll

/-! ## Replies -/

/-- A reply is a count if it has the length of one. -/
theorem countFromReply_eq_ok_iff {peer n : Nat} {reply : Option Bytes} :
    countFromReply peer reply = .ok n ↔
      reply.map List.length = some WireLength.size ∧ (reply.map LittleEndian.value).getD 0 = n := by
  cases reply with
  | none => simp [countFromReply]
  | some message =>
    rw [countFromReply, WireLength.decode, expectLength]
    by_cases hlength : message.length = WireLength.size
    · rw [if_pos hlength]
      simp [Except.mapError, hlength]
    · rw [if_neg hlength]
      simp [Except.mapError, hlength]

/-- Replies that are all counts are read as such. -/
theorem countsFromReplies_eq {peers : List Nat} {count : Nat → Option Bytes}
    (h : ∀ peer ∈ peers, (count peer).map List.length = some WireLength.size) :
    countsFromReplies (peers.map fun peer => (peer, count peer)) =
      (peers.map fun peer => (peer, ((count peer).map LittleEndian.value).getD 0), none) := by
  induction peers with
  | nil => rfl
  | cons peer peers ih =>
    have hreply := (@countFromReply_eq_ok_iff peer _ _).mpr ⟨h peer (by simp), rfl⟩
    simp only [List.map_cons, countsFromReplies, ih fun p hp => h p (by simp [hp]), hreply]

/-- One reply that is no count is reported. -/
theorem exists_countsFromReplies_error {peers : List Nat} {count : Nat → Option Bytes}
    (h : ¬ ∀ peer ∈ peers, (count peer).map List.length = some WireLength.size) :
    ∃ received error,
      countsFromReplies (peers.map fun peer => (peer, count peer)) = (received, some error) := by
  induction peers with
  | nil => exact absurd nofun h
  | cons peer peers ih =>
    simp only [List.map_cons, countsFromReplies]
    cases hreply : countFromReply peer (count peer) with
    | error error => exact ⟨_, error, rfl⟩
    | ok n =>
      have hcount := (countFromReply_eq_ok_iff.mp hreply).1
      obtain ⟨received, error, hrest⟩ := ih fun hall => h fun p hp => by
        rcases List.mem_cons.mp hp with rfl | hp
        · exact hcount
        · exact hall p hp
      exact ⟨_, error, by rw [hrest]⟩

namespace AllToAll

/-- The payload in the reply of a rank, or why there is none. -/
def openReply (source count : Nat) : Option Bytes → Except MeshError Bytes
  | none => .error (.communication source (.missingFrame count source))
  | some frame =>
    (expectLength frame.length (count + 1) >>= fun _ => Frame.payload frame).mapError
      (.communication source)

theorem payloadFromReply_eq {source count : Nat} (hfits : count + 1 ≤ Word.bufferLimit)
    (reply : Option Bytes) :
    payloadFromReply source count reply = (openReply source count reply).mapError .reported := by
  cases reply with
  | none => rfl
  | some frame =>
    rw [payloadFromReply, Frame.unwrap, Word.add_of_lt (Word.lt_limit_of_le hfits), Checked.ok_bind,
      openReply]
    change Except.mapError _ (expectLength frame.length (count + 1) >>= fun _ => Frame.payload frame) = _
    cases expectLength frame.length (count + 1) >>= fun _ => Frame.payload frame with
    | ok payload => rfl
    | error cause => rfl

/-- A reply holds a payload exactly if it is the payload behind a good status, in the announced size. -/
theorem openReply_eq_ok_iff {source count : Nat} {reply : Option Bytes} {payload : Bytes} :
    openReply source count reply = .ok payload ↔
      reply = some (Frame.okStatus :: payload) ∧ payload.length = count := by
  cases reply with
  | none => simp [openReply]
  | some frame =>
    rw [openReply, Checked.mapError_eq_ok_iff, Checked.bind_eq_ok_iff, Option.some.injEq]
    constructor
    · rintro ⟨_, hlength, hpayload⟩
      unfold expectLength at hlength
      split at hlength
      · rename_i hsize
        unfold Frame.payload at hpayload
        split at hpayload
        · cases hpayload
        · split at hpayload
          · rename_i hstatus
            cases hpayload
            exact ⟨by rw [hstatus], Nat.succ.inj hsize⟩
          · split at hpayload
            · cases hpayload
            · cases hpayload
      · cases hlength
    · rintro ⟨rfl, rfl⟩
      exact ⟨(), if_pos rfl, rfl⟩

/-- Why a reply holds no payload. -/
def objection? : Except MeshError Bytes → Option MeshError
  | .ok _ => none
  | .error error => some error

theorem objection?_eq_none_iff {x : Except MeshError Bytes} :
    objection? x = none ↔ ∃ payload, x = .ok payload := by
  cases x with
  | ok payload => simp [objection?]
  | error error => simp [objection?]

end AllToAll

/-! ## Own values -/

theorem AllToAll.packedFor_eq_ok_iff {out : Outgoing} {dest count : Nat} {data : Bytes} :
    packedFor out dest count = .ok data ↔ out.packed dest = .ok data ∧ data.length = count := by
  rw [packedFor, Checked.bind_eq_ok_iff]
  constructor
  · rintro ⟨packed, hpacked, hlength⟩
    split at hlength
    · cases hlength
      exact ⟨Checked.mapError_eq_ok_iff.mp hpacked, ‹_›⟩
    · cases hlength
  · rintro ⟨hpacked, hlength⟩
    exact ⟨data, Checked.mapError_eq_ok_iff.mpr hpacked, if_pos hlength⟩

/-- An own value makes no error exactly if there is none, or it has the announced length. -/
theorem Outgoing.sendError_eq_none_iff {out : Outgoing} {dest : Nat} : out.sendError dest = none ↔
    (out.count dest ≠ 0 →
      ∃ data, out.packed dest = .ok data ∧ data.length = out.count dest) := by
  rw [sendError, content]
  by_cases hzero : out.count dest = 0
  · simp [hzero]
  · rw [if_neg hzero, Option.bind_some]
    simp only [← AllToAll.packedFor_eq_ok_iff]
    cases packedFor out dest (out.count dest) with
    | ok data => simp
    | error error => simp [hzero]

theorem Outgoing.payload_eq_some_iff {out : Outgoing} {dest : Nat} {data : Bytes} :
    out.payload dest = some data ↔
      out.count dest ≠ 0 ∧ out.packed dest = .ok data ∧ data.length = out.count dest := by
  rw [payload, content]
  by_cases hzero : out.count dest = 0
  · simp [hzero]
  · rw [if_neg hzero, Option.bind_some, ← AllToAll.packedFor_eq_ok_iff]
    cases packedFor out dest (out.count dest) with
    | ok data => simp [hzero]
    | error error => simp

/-! ## Complete traffic -/

/-- What the transport hands a rank of an exchange of values from each of its peers. -/
structure Inbound where
  /-- The message in the place of the count. -/
  count : Nat → Option Bytes
  /-- The message in the place of the frame, if the count is not zero. -/
  frame : Nat → Option Bytes

namespace Inbound

variable {α : Type} (inbound : Inbound) (me : Member) (out : Outgoing)

/-- All counts arrived. -/
def Counted : Prop := ∀ peer ∈ me.peers, (inbound.count peer).map List.length = some WireLength.size

instance : Decidable (inbound.Counted me) := inferInstanceAs (Decidable (∀ _ ∈ _, _))

/-- The length of the value that a source announced. The own rank is a source, too. -/
def announced (source : Nat) : Nat :=
  if source = me.rank then out.count source else ((inbound.count source).map LittleEndian.value).getD 0

/-- The ranks that announced a value, in increasing order. -/
def sources : List Nat :=
  (List.range me.size).filter fun source => decide (inbound.announced me out source ≠ 0)

/-- The packed value of a source has the announced length. That of a peer comes behind a good status. -/
def Holds (source : Nat) (payload : Bytes) : Prop :=
  payload.length = inbound.announced me out source ∧
    if source = me.rank then out.packed source = .ok payload
    else inbound.frame source = some (Frame.okStatus :: payload)

/-- The traffic lacks nothing, and holds these values in the order of their sources. -/
structure Complete (unpack : Bytes → Except CodecError α) (values : List (Nat × α)) : Prop where
  counted : inbound.Counted me
  packed : ∀ dest < me.size, out.count dest ≠ 0 →
    ∃ data, out.packed dest = .ok data ∧ data.length = out.count dest
  framed : ∀ peer ∈ me.peers, inbound.announced me out peer ≠ 0 →
    ∃ payload, inbound.frame peer = some (Frame.okStatus :: payload) ∧
      payload.length = inbound.announced me out peer
  unpacked : List.Forall₂ (fun source value => value.1 = source ∧
      ∃ payload, inbound.Holds me out source payload ∧ unpack payload = .ok value.2)
    (inbound.sources me out) values

/-! ## The result -/

/-- The peers that announced a value. -/
def senders : List Nat := me.peers.filter fun peer => decide (inbound.announced me out peer ≠ 0)

/-- The frame of a peer, opened. -/
def opened (peer : Nat) : Except MeshError Bytes :=
  openReply peer (inbound.announced me out peer) (inbound.frame peer)

/-- The first error: of an own value, or else of a frame. -/
def error : Option MeshError :=
  ((List.range me.size).findSome? out.sendError).or
    ((inbound.senders me out).findSome? fun peer => objection? (inbound.opened me out peer))

/-- The payload of a source, if there is one. -/
def payload (source : Nat) : Option Bytes :=
  if source = me.rank then out.payload source
  else if inbound.announced me out source = 0 then none
  else (inbound.opened me out source).toOption

/-- What the exchange comes to once all counts arrived. -/
def result (unpack : Bytes → Except CodecError α) : Except Failure (List (Nat × α)) :=
  match inbound.error me out with
  | some error => .error (.reported error)
  | none => (unpackAll unpack ((List.range me.size).filterMap fun source =>
      (inbound.payload me out source).map (source, ·))).mapError .reported

variable {inbound me out} {unpack : Bytes → Except CodecError α} {values : List (Nat × α)}

theorem mem_sources {source : Nat} : source ∈ inbound.sources me out ↔
    source < me.size ∧ inbound.announced me out source ≠ 0 := by
  rw [sources, List.mem_filter, List.mem_range, decide_eq_true_eq]

theorem mem_senders {peer : Nat} : peer ∈ inbound.senders me out ↔
    peer ∈ me.peers ∧ inbound.announced me out peer ≠ 0 := by
  rw [senders, List.mem_filter, decide_eq_true_eq]

theorem error_eq_none_iff : inbound.error me out = none ↔
    (∀ dest < me.size, out.count dest ≠ 0 →
      ∃ data, out.packed dest = .ok data ∧ data.length = out.count dest) ∧
    ∀ peer ∈ me.peers, inbound.announced me out peer ≠ 0 →
      ∃ payload, inbound.frame peer = some (Frame.okStatus :: payload) ∧
        payload.length = inbound.announced me out peer := by
  simp only [error, Option.or_eq_none_iff, List.findSome?_eq_none_iff, List.mem_range,
    Outgoing.sendError_eq_none_iff, mem_senders, and_imp, objection?_eq_none_iff, opened,
    openReply_eq_ok_iff]

/-- A source has a payload exactly if it announced one and holds it. -/
theorem payload_eq_some_iff {source : Nat} {bytes : Bytes} :
    inbound.payload me out source = some bytes ↔
      inbound.announced me out source ≠ 0 ∧ inbound.Holds me out source bytes := by
  unfold payload Holds
  by_cases hown : source = me.rank
  · rw [if_pos hown, if_pos hown, Outgoing.payload_eq_some_iff, announced, if_pos hown, and_comm (b := _ = _)]
  · rw [if_neg hown, if_neg hown]
    by_cases hzero : inbound.announced me out source = 0
    · simp [hzero]
    · rw [if_neg hzero, and_iff_right hzero, and_comm, ← @openReply_eq_ok_iff source]
      change (inbound.opened me out source).toOption = some bytes ↔ inbound.opened me out source = _
      cases inbound.opened me out source with
      | ok bytes => simp [Except.toOption]
      | error error => simp [Except.toOption]

/-- The payloads of some ranks can be unpacked exactly if each of them can. -/
theorem unpackAll_eq_ok_iff {payload : Nat → Option Bytes} {ranks : List Nat} :
    unpackAll unpack (ranks.filterMap fun rank => (payload rank).map (rank, ·)) = .ok values ↔
      List.Forall₂ (fun rank value => value.1 = rank ∧
          ∃ bytes, payload rank = some bytes ∧ unpack bytes = .ok value.2)
        (ranks.filter fun rank => (payload rank).isSome) values := by
  rw [unpackAll, Checked.mapM_eq_ok_iff]
  induction ranks generalizing values with
  | nil => simp
  | cons rank ranks ih =>
    rw [List.filterMap_cons, List.filter_cons]
    cases hpayload : payload rank with
    | none => exact ih
    | some bytes =>
      simp only [Option.map_some, Option.isSome_some, if_true, List.forall₂_cons_left_iff]
      refine exists_congr fun value => exists_congr fun rest => and_congr ?_ (and_congr_left fun _ => ih)
      simp only [Checked.bind_eq_ok_iff, reportCodec, Checked.mapError_eq_ok_iff, hpayload,
        Option.some.injEq, exists_eq_left', Checked.pure_eq_ok, Except.ok.injEq]
      constructor
      · rintro ⟨a, hunpack, rfl⟩
        exact ⟨rfl, hunpack⟩
      · rintro ⟨rfl, hunpack⟩
        exact ⟨value.2, hunpack, rfl⟩

/-- The exchange never faults over its traffic. -/
theorem result_cases : (∃ values, inbound.result me out unpack = .ok values) ∨
    ∃ error, inbound.result me out unpack = .error (.reported error) := by
  unfold result
  split
  · exact .inr ⟨_, rfl⟩
  · cases unpackAll unpack ((List.range me.size).filterMap fun source =>
        (inbound.payload me out source).map (source, ·)) with
    | ok values => exact .inl ⟨values, rfl⟩
    | error error => exact .inr ⟨error, rfl⟩

/-- Without an error every source that announced a value has one. -/
theorem exists_payload (herror : inbound.error me out = none) {source : Nat} (hsource : source < me.size)
    (hannounced : inbound.announced me out source ≠ 0) :
    ∃ bytes, inbound.payload me out source = some bytes := by
  obtain ⟨hpacked, hframed⟩ := error_eq_none_iff.mp herror
  simp only [payload_eq_some_iff, and_iff_right hannounced, Holds]
  by_cases hown : source = me.rank
  · rw [announced, if_pos hown] at hannounced
    obtain ⟨data, hdata, hlength⟩ := hpacked source hsource hannounced
    refine ⟨data, ?_, (if_pos hown).mpr hdata⟩
    rw [hlength, announced, if_pos hown]
  · obtain ⟨bytes, hframe, hlength⟩ :=
      hframed source (Member.mem_peers.mpr ⟨hsource, hown⟩) hannounced
    exact ⟨bytes, hlength, (if_neg hown).mpr hframe⟩

/-- The exchange comes to a list of values exactly if the traffic is complete, and then to its values. -/
theorem result_eq_ok_iff (hcounted : inbound.Counted me) :
    inbound.result me out unpack = .ok values ↔ inbound.Complete me out unpack values := by
  cases herror : inbound.error me out with
  | some error =>
    rw [result, herror]
    refine iff_of_false nofun fun hcomplete => ?_
    rw [error_eq_none_iff.mpr ⟨hcomplete.packed, hcomplete.framed⟩] at herror
    cases herror
  | none =>
    obtain ⟨hpacked, hframed⟩ := error_eq_none_iff.mp herror
    have hsources : ((List.range me.size).filter fun source =>
        (inbound.payload me out source).isSome) = inbound.sources me out := by
      refine List.filter_congr fun source hsource => ?_
      rw [Bool.eq_iff_iff, Option.isSome_iff_exists, decide_eq_true_iff]
      refine ⟨fun ⟨bytes, hbytes⟩ => (payload_eq_some_iff.mp hbytes).1, fun hannounced => ?_⟩
      exact exists_payload herror (List.mem_range.mp hsource) hannounced
    rw [result, herror, Checked.mapError_eq_ok_iff, unpackAll_eq_ok_iff, hsources]
    constructor
    · intro hunpacked
      refine ⟨hcounted, hpacked, hframed, hunpacked.imp fun source value h => ?_⟩
      obtain ⟨hsource, bytes, hbytes, hvalue⟩ := h
      exact ⟨hsource, bytes, (payload_eq_some_iff.mp hbytes).2, hvalue⟩
    · intro hcomplete
      have hannounced : ∀ source ∈ inbound.sources me out, inbound.announced me out source ≠ 0 :=
        fun source hsource => (mem_sources.mp hsource).2
      refine ((List.forall₂_and_left _ _).mpr ⟨hannounced, hcomplete.unpacked⟩).imp fun _ _ h => ?_
      obtain ⟨hpos, hsource, bytes, hholds, hvalue⟩ := h
      exact ⟨hsource, bytes, payload_eq_some_iff.mpr ⟨hpos, hholds⟩, hvalue⟩

end Inbound

end HaloMesh
