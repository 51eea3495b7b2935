-- SUMMARY: Every rank gets what the others have for it, or the first error, and no message is left.
import HaloMesh.Collective.AllToAll
import HaloMesh.Proofs.Collective.Counts

/-!
# Delivery of values

After the exchange of counts every rank knows which ranks have something for it. A rank sends a frame
of the announced size even if the value cannot be packed, so frames go exactly where they are
expected. What a rank ends with depends on its own values and on those for it, and on nothing else.
-/

namespace HaloMesh

/-! ## What goes from rank to rank -/

namespace Outgoing

open AllToAll

variable (out : Outgoing) (dest : Nat)

/-- The packed value for a rank or why it cannot be packed, if there is a value. -/
def content : Option (Except MeshError Bytes) :=
  if out.count dest = 0 then none else some (packedFor out dest (out.count dest))

/-- The frame for a rank. -/
def frame : Option Bytes :=
  (out.content dest).map fun
    | .ok data => Frame.wrap data
    | .error _ => Frame.failedStatus :: Bytes.zeros (out.count dest)

/-- The error of the sender. -/
def sendError : Option MeshError :=
  (out.content dest).bind fun
    | .ok _ => none
    | .error error => some error

/-- The value that a rank gets. -/
def payload : Option Bytes :=
  (out.content dest).bind fun
    | .ok data => some data
    | .error _ => none

/-- The error of the rank that gets no value. -/
def receiveError (source : Nat) : Option MeshError :=
  (out.content dest).bind fun
    | .ok _ => none
    | .error _ => some (.communication source .senderFailed)

variable {out dest}

theorem length_of_packedFor {count : Nat} {data : Bytes}
    (h : packedFor out dest count = .ok data) : data.length = count := by
  rw [packedFor, Checked.bind_eq_ok_iff] at h
  obtain ⟨a, -, h⟩ := h
  split at h
  · cases h
    assumption
  · cases h

/-- A frame has the announced size. -/
theorem length_of_frame {frame : Bytes} (h : out.frame dest = some frame) :
    frame.length = out.count dest + 1 := by
  obtain ⟨content, hcontent, rfl⟩ := Option.map_eq_some_iff.mp h
  unfold Outgoing.content at hcontent
  split at hcontent
  · cases hcontent
  · cases content with
    | ok data =>
      rw [Option.some.injEq] at hcontent
      exact congrArg (· + 1) (length_of_packedFor hcontent)
    | error error => simp [Bytes.zeros]

theorem isSome_frame : (out.frame dest).isSome = decide (out.count dest ≠ 0) := by
  unfold frame content
  split
  · rename_i hzero
    simp [hzero]
  · rename_i hcount
    simp [hcount]

end Outgoing

namespace AllToAll

/-! ## Sending -/

/-- The message with the frame for a rank, which the own rank does not need. -/
def parcelTo (me : Member) (tag : Nat) (out : Outgoing) (dest : Nat) : List Parcel :=
  if dest = me.rank then [] else ((out.frame dest).map fun frame => ⟨dest, tag, frame⟩).toList

/-- What has been sent when the frame for `dest` is. -/
def Sent.after (me : Member) (tag : Nat) (out : Outgoing) (sent : Sent) (dest : Nat) : Sent where
  requests := sent.requests ++ (parcelTo me tag out dest).map fun p => .send p.peer p.tag p.bytes
  own := if dest = me.rank then (out.frame dest).or sent.own else sent.own
  error := sent.error.or (out.sendError dest)

theorem deliver_yields (sent : Sent) (me : Member) (tag dest : Nat) (frame : Bytes) :
    Comm.Yields me.rank (sent.deliver me tag dest frame)
      (if dest = me.rank then [] else [Parcel.sent me.rank ⟨dest, tag, frame⟩])
      { requests := sent.requests ++ if dest = me.rank then [] else [.send dest tag frame]
        own := if dest = me.rank then some frame else sent.own
        error := sent.error } := by
  unfold Sent.deliver
  split
  · rw [List.append_nil]
    exact .pure ..
  · exact (Comm.Yields.lift (Program.performs_send me.rank ⟨dest, tag, frame⟩)).bind (.pure ..)

theorem sizeFor_eq_ok {n : Nat} (h : n + 1 ≤ Word.bufferLimit) : Frame.sizeFor n = .ok (n + 1) := by
  rw [Frame.sizeFor, Word.add_of_lt (Word.lt_limit_of_le h), Checked.ok_bind, Word.reserve_eq_ok_iff.mpr h]
  rfl

theorem failed_eq_ok {n : Nat} (h : n + 1 ≤ Word.bufferLimit) :
    Frame.failed n = .ok (Frame.failedStatus :: Bytes.zeros n) := by
  rw [Frame.failed, sizeFor_eq_ok h]
  rfl

/-- A rank sends the frame that is due, whatever became of the value. -/
theorem sendTo_yields (me : Member) (tag : Nat) (out : Outgoing) (sent : Sent) {dest : Nat}
    (hcount : out.count dest + 1 ≤ Word.bufferLimit) :
    Comm.Yields me.rank (sendTo me tag out sent (out.count dest, dest))
      ((parcelTo me tag out dest).map (Parcel.sent me.rank)) (sent.after me tag out dest) := by
  have hdeliver := fun sent frame => deliver_yields sent me tag dest frame
  by_cases hzero : out.count dest = 0
  · have hcontent : out.content dest = none := if_pos hzero
    simp only [sendTo, if_pos hzero, parcelTo, Sent.after, Outgoing.sendError, Outgoing.frame, hcontent,
      Option.map_none, Option.toList_none, Option.bind_none, ite_self, List.map_nil, List.append_nil,
      Option.none_or, Option.or_none]
    exact .pure me.rank sent
  · have hcontent : out.content dest = some (packedFor out dest (out.count dest)) := if_neg hzero
    simp only [sendTo, if_neg hzero, parcelTo, Sent.after, Outgoing.sendError, Outgoing.frame, hcontent]
    cases packedFor out dest (out.count dest) with
    | ok data =>
      have h := hdeliver sent (Frame.wrap data)
      by_cases hown : dest = me.rank
      · simpa [hown] using h
      · simpa [hown] using h
    | error error =>
      refine (Comm.Yields.lift (Program.performs_record ..)).bind_silent ?_
      refine (Comm.Yields.of_fault (failed_eq_ok hcount)).bind_silent ?_
      have h := hdeliver { sent with error := firstError sent.error error }
        (Frame.failedStatus :: Bytes.zeros (out.count dest))
      by_cases hown : dest = me.rank
      · simpa [hown, firstError] using h
      · simpa [hown, firstError] using h

theorem foldl_after (me : Member) (tag : Nat) (out : Outgoing) (dests : List Nat) (sent : Sent) :
    dests.foldl (Sent.after me tag out) sent =
      { requests := sent.requests ++
          (dests.flatMap (parcelTo me tag out)).map fun p => .send p.peer p.tag p.bytes
        own := if me.rank ∈ dests then (out.frame me.rank).or sent.own else sent.own
        error := sent.error.or (dests.findSome? out.sendError) } := by
  induction dests generalizing sent with
  | nil => simp
  | cons dest dests ih =>
    rw [List.foldl_cons, ih]
    simp only [Sent.after, List.flatMap_cons, List.map_append, List.append_assoc]
    have hown : (if me.rank ∈ dests then
        (out.frame me.rank).or (if dest = me.rank then (out.frame dest).or sent.own else sent.own)
          else if dest = me.rank then (out.frame dest).or sent.own else sent.own) =
            if me.rank ∈ dest :: dests then (out.frame me.rank).or sent.own else sent.own := by
      by_cases hdest : dest = me.rank
      · rw [hdest]
        cases out.frame me.rank with
        | none => simp
        | some frame => simp
      · simp [hdest, Ne.symm hdest]
    have herror : (sent.error.or (out.sendError dest)).or (dests.findSome? out.sendError) =
        sent.error.or ((dest :: dests).findSome? out.sendError) := by
      rw [List.findSome?_cons, Option.or_assoc]
      cases out.sendError dest with
      | none => rfl
      | some error => rfl
    rw [hown, herror]

theorem flatMap_parcelTo (me : Member) (tag : Nat) (out : Outgoing) :
    (List.range me.size).flatMap (parcelTo me tag out) =
      Parcel.toPeers me.peers tag out.frame := by
  rw [Parcel.toPeers, Member.peers, List.filterMap_filter, List.filterMap_eq_flatMap_toList]
  refine List.flatMap_congr fun dest _ => ?_
  unfold parcelTo
  by_cases hown : dest = me.rank
  · simp [hown]
  · simp [hown]

/-- A rank sends a frame to every peer for which it has a value. -/
theorem sendAll_yields (me : Member) (tag : Nat) (out : Outgoing)
    (hcount : ∀ dest < me.size, out.count dest + 1 ≤ Word.bufferLimit) :
    Comm.Yields me.rank
      (((List.range me.size).map fun dest => (out.count dest, dest)).foldlM (sendTo me tag out)
        ⟨[], none, none⟩)
      ((Parcel.toPeers me.peers tag out.frame).map (Parcel.sent me.rank))
      { requests := (Parcel.toPeers me.peers tag out.frame).map fun p => .send p.peer p.tag p.bytes
        own := if me.rank < me.size then out.frame me.rank else none
        error := (List.range me.size).findSome? out.sendError } := by
  have h := @Comm.Yields.foldlM _ _ me.rank
    (fun sent dest => sendTo me tag out sent (out.count dest, dest)) _ _ (fun _ => True)
    (List.range me.size) ⟨[], none, none⟩ trivial fun dest hdest sent _ =>
      ⟨sendTo_yields me tag out sent (hcount dest (List.mem_range.mp hdest)), trivial⟩
  rw [foldl_after, ← List.map_flatMap, flatMap_parcelTo] at h
  rw [List.foldlM_map]
  simpa using h

/-! ## Receiving -/

theorem payloadFromReply_frame {out : Outgoing} {source dest : Nat} {frame : Bytes}
    (hcount : out.count dest + 1 ≤ Word.bufferLimit) (hframe : out.frame dest = some frame) :
    payloadFromReply source (out.count dest) (some (frame.take (out.count dest + 1))) =
      match out.payload dest with
      | some payload => .ok payload
      | none => .error (.reported (.communication source .senderFailed)) := by
  have hlength := Outgoing.length_of_frame hframe
  have hsize : Word.add (out.count dest) 1 = .ok (out.count dest + 1) :=
    Word.add_of_lt (Word.lt_limit_of_le hcount)
  rw [List.take_of_length_le (Nat.le_of_eq hlength), payloadFromReply, Frame.unwrap, hsize,
    Checked.ok_bind, expectLength, if_pos hlength]
  obtain ⟨content, hcontent, rfl⟩ := Option.map_eq_some_iff.mp hframe
  rw [Outgoing.payload, hcontent]
  cases content with
  | ok data => rfl
  | error error => rfl

variable {out : Nat → Outgoing} {n s : Nat} (tag : Nat)

/-- What a rank has once the frame of `source` arrived. -/
def arrive (out : Nat → Outgoing) (s : Nat) (state : List (Nat × Bytes) × Option MeshError)
    (source : Nat) : List (Nat × Bytes) × Option MeshError :=
  (state.1 ++ (((out source).payload s).map (source, ·)).toList,
    state.2.or ((out source).receiveError s source))

/-- The message with the frame of a rank. -/
def parcelFrom (out : Nat → Outgoing) (s source : Nat) : List Parcel :=
  (((out source).frame s).map fun frame => ⟨source, tag, frame⟩).toList

theorem awaitFrame_yields (state : List (Nat × Bytes) × Option MeshError) {source : Nat}
    (hpos : (out source).count s ≠ 0) (hcount : (out source).count s + 1 ≤ Word.bufferLimit) :
    Comm.Yields s (awaitFrame state (((out source).count s, source),
      .receive source tag ((out source).count s + 1)))
      ((parcelFrom tag out s source).map (Parcel.received s)) (arrive out s state source) := by
  have hsome : ((out source).frame s).isSome := by
    rw [Outgoing.isSome_frame]
    exact decide_eq_true hpos
  obtain ⟨frame, hframe⟩ := Option.isSome_iff_exists.mp hsome
  rw [parcelFrom, hframe]
  refine (Comm.Yields.lift (Program.performs_receive s ⟨source, tag, frame⟩ _)).bind ?_
  rw [payloadFromReply_frame hcount hframe, arrive]
  obtain ⟨content, hcontent, rfl⟩ := Option.map_eq_some_iff.mp hframe
  rw [Outgoing.payload, Outgoing.receiveError, hcontent]
  cases content with
  | ok data =>
    simp only [Option.bind_some, Option.map_some, Option.toList_some, Option.or_none]
    exact .pure s _
  | error error =>
    simp only [Option.bind_some, Option.map_none, Option.toList_none, List.append_nil]
    exact .pure s _

theorem foldl_arrive (sources : List Nat) (state : List (Nat × Bytes) × Option MeshError) :
    sources.foldl (arrive out s) state =
      (state.1 ++ sources.filterMap (fun source => ((out source).payload s).map (source, ·)),
        state.2.or (sources.findSome? fun source => (out source).receiveError s source)) := by
  induction sources generalizing state with
  | nil => simp
  | cons source sources ih =>
    rw [List.foldl_cons, ih, arrive, List.filterMap_cons, List.findSome?_cons, List.append_assoc,
      Option.or_assoc]
    cases (out source).payload s with
    | none =>
      cases (out source).receiveError s source with
      | none => simp
      | some error => simp
    | some payload =>
      cases (out source).receiveError s source with
      | none => simp
      | some error => simp

/-- The peers that have something for a rank. -/
def senders (out : Nat → Outgoing) (me : Member) : List Nat :=
  me.peers.filter fun source => decide ((out source).count me.rank ≠ 0)

theorem zipIdx_map_range {α : Type} (f : Nat → α) (n : Nat) :
    ((List.range n).map f).zipIdx = (List.range n).map fun i => (f i, i) := by
  refine List.ext_getElem (by simp) fun i _ _ => ?_
  simp

/-- The peers that announce something, each with its count. -/
theorem announced_map_range (me : Member) (count : Nat → Nat) :
    announced me ((List.range me.size).map count) =
      (me.peers.filter fun source => decide (count source ≠ 0)).map fun source =>
        (count source, source) := by
  rw [announced, zipIdx_map_range, List.filter_map, Member.peers, List.filter_filter]
  refine congrArg _ (List.filter_congr fun source _ => ?_)
  simp [Bool.and_comm, Nat.pos_iff_ne_zero]

theorem announced_eq (out : Nat → Outgoing) (me : Member) :
    announced me ((List.range me.size).map fun source => (out source).count me.rank) =
      (senders out me).map fun source => ((out source).count me.rank, source) :=
  announced_map_range me fun source => (out source).count me.rank

theorem mem_senders {out : Nat → Outgoing} {me : Member} {source : Nat} :
    source ∈ senders out me ↔ source ∈ me.peers ∧ (out source).count me.rank ≠ 0 := by
  rw [senders, List.mem_filter, decide_eq_true_eq]

theorem postReceives_yields (out : Nat → Outgoing) (me : Member)
    (hcount : ∀ r < me.size, (out r).count me.rank + 1 ≤ Word.bufferLimit) :
    Comm.Yields me.rank
      (((senders out me).map fun source => ((out source).count me.rank, source)).mapM
        (postReceive tag)) []
      ((senders out me).map fun source =>
        .receive source tag ((out source).count me.rank + 1)) := by
  have h := @Comm.Yields.mapM _ _ me.rank (postReceive tag) (fun _ => [])
    (fun x => .receive x.2 tag (x.1 + 1))
    ((senders out me).map fun source => ((out source).count me.rank, source)) fun x hx => by
      obtain ⟨source, hsource, rfl⟩ := List.mem_map.mp hx
      have hlt := (Member.mem_peers.mp (mem_senders.mp hsource).1).1
      refine (Comm.Yields.of_fault (sizeFor_eq_ok (hcount source hlt))).bind_silent ?_
      exact (Comm.Yields.lift (Program.performs_expect ..)).bind_silent (.pure ..)
  rw [List.map_map, List.flatMap_eq_nil_iff.mpr fun _ _ => rfl] at h
  exact h

/-- Peers without a value contribute nothing. -/
theorem flatMap_senders {β : Type} (out : Nat → Outgoing) (me : Member) {f : Nat → List β}
    (h : ∀ source, (out source).content me.rank = none → f source = []) :
    (senders out me).flatMap f = me.peers.flatMap f := by
  rw [senders]
  induction me.peers with
  | nil => rfl
  | cons source sources ih =>
    rw [List.filter_cons, List.flatMap_cons, ← ih]
    split
    · rfl
    · rename_i hcount
      rw [decide_eq_true_eq, not_not] at hcount
      rw [h source (if_pos hcount), List.nil_append]

theorem filterMap_senders {β : Type} (out : Nat → Outgoing) (me : Member) {f : Nat → Option β}
    (h : ∀ source, (out source).content me.rank = none → f source = none) :
    (senders out me).filterMap f = me.peers.filterMap f := by
  rw [List.filterMap_eq_flatMap_toList, List.filterMap_eq_flatMap_toList]
  refine flatMap_senders out me fun source hnone => ?_
  rw [h source hnone, Option.toList_none]

/-- A rank waits for the frame of every peer that has a value for it. -/
theorem awaitAll_yields (out : Nat → Outgoing) (me : Member)
    (hcount : ∀ r < me.size, (out r).count me.rank + 1 ≤ Word.bufferLimit)
    (error : Option MeshError) :
    Comm.Yields me.rank
      ((((senders out me).map fun source => ((out source).count me.rank, source)).zip
        ((senders out me).map fun source => Request.receive source tag
          ((out source).count me.rank + 1))).foldlM awaitFrame ([], error))
      ((Parcel.toPeers me.peers tag fun source => (out source).frame me.rank).map
        (Parcel.received me.rank))
      (me.peers.filterMap (fun source => ((out source).payload me.rank).map (source, ·)),
        error.or (me.peers.findSome? fun source => (out source).receiveError me.rank source)) := by
  have hloop := @Comm.Yields.foldlM _ _ me.rank (fun state source => awaitFrame state
      (((out source).count me.rank, source), .receive source tag ((out source).count me.rank + 1)))
    (fun source => (parcelFrom tag out me.rank source).map (Parcel.received me.rank))
    (arrive out me.rank) (fun _ => True) (senders out me) ([], error) trivial
    fun source hsource state _ => by
      obtain ⟨hpeer, hpos⟩ := mem_senders.mp hsource
      exact ⟨awaitFrame_yields tag state hpos (hcount source (Member.mem_peers.mp hpeer).1), trivial⟩
  rw [List.zip_map', List.foldlM_map]
  rw [foldl_arrive, ← List.map_flatMap, List.nil_append] at hloop
  have hparcels : (senders out me).flatMap (parcelFrom tag out me.rank) =
      Parcel.toPeers me.peers tag fun source => (out source).frame me.rank := by
    rw [Parcel.toPeers, List.filterMap_eq_flatMap_toList, flatMap_senders out me]
    · rfl
    · intro source hnone
      simp [parcelFrom, Outgoing.frame, hnone]
  have hpayloads : (senders out me).filterMap
      (fun source => ((out source).payload me.rank).map (source, ·)) =
        me.peers.filterMap fun source => ((out source).payload me.rank).map (source, ·) := by
    refine filterMap_senders out me fun source hnone => ?_
    simp [Outgoing.payload, hnone]
  have herrors : (senders out me).findSome?
      (fun source => (out source).receiveError me.rank source) =
        me.peers.findSome? fun source => (out source).receiveError me.rank source := by
    rw [← List.head?_filterMap, ← List.head?_filterMap, filterMap_senders out me]
    intro source hnone
    simp [Outgoing.receiveError, hnone]
  rw [hparcels, hpayloads, herrors] at hloop
  exact hloop

/-! ## Results -/

/-- The own payload finds its place between those of lower and of higher ranks. -/
theorem insertOwn_filterMap {rank : Nat} {payload : Bytes} {f : Nat → Option Bytes}
    {ranks : List Nat} (hsorted : ranks.Pairwise (· < ·)) (hrank : rank ∈ ranks)
    (hpayload : f rank = some payload) :
    insertOwn rank payload ((ranks.filter (· != rank)).filterMap fun r => (f r).map (r, ·)) =
      ranks.filterMap fun r => (f r).map (r, ·) := by
  induction ranks with
  | nil => cases hrank
  | cons r ranks ih =>
    obtain ⟨hr, hsorted⟩ := List.pairwise_cons.mp hsorted
    cases hrank with
    | head =>
      have hothers : ranks.filter (· != rank) = ranks :=
        List.filter_eq_self.mpr fun s hs => bne_iff_ne.mpr (Nat.ne_of_gt (hr s hs))
      rw [List.filter_cons, if_neg (by simp), hothers, List.filterMap_cons, hpayload]
      -- All payloads received come from higher ranks.
      cases hlist : ranks.filterMap fun r => (f r).map (r, ·) with
      | nil => rfl
      | cons first rest =>
        have hfirst : first ∈ ranks.filterMap fun r => (f r).map (r, ·) := hlist ▸ List.mem_cons_self
        obtain ⟨s, hs, hmap⟩ := List.mem_filterMap.mp hfirst
        obtain ⟨_, -, rfl⟩ := Option.map_eq_some_iff.mp hmap
        exact if_neg (Nat.not_lt.mpr (Nat.le_of_lt (hr s hs)))
    | tail _ hrank =>
      have hlt : r < rank := hr rank hrank
      rw [List.filter_cons, if_pos (bne_iff_ne.mpr (Nat.ne_of_lt hlt)), List.filterMap_cons,
        List.filterMap_cons, ← ih hsorted hrank]
      cases f r with
      | none => rfl
      | some p => exact if_pos hlt

/-- What rank `me` ends with: the first error on the way to the others, or else on the way to it, or
else the values for it. -/
def outcome {α : Type} (unpack : Bytes → Except CodecError α) (out : Nat → Outgoing) (me : Member) :
    Except Failure (List (Nat × α)) :=
  match ((List.range me.size).findSome? (out me.rank).sendError).or
    (me.peers.findSome? fun source => (out source).receiveError me.rank source) with
  | some error => .error (.reported error)
  | none => liftM (unpackAll unpack
      ((List.range me.size).filterMap fun source => ((out source).payload me.rank).map (source, ·)))

/-- The own payload joins those of the peers, unless it could not be packed. -/
theorem insertOwn_payloads {out : Outgoing} {me : Member} (hme : me.rank < me.size)
    (herror : out.sendError me.rank = none) (payload : Nat → Option Bytes) :
    (match out.frame me.rank with
      | some frame => insertOwn me.rank frame.tail
          (me.peers.filterMap fun source => (payload source).map (source, ·))
      | none => me.peers.filterMap fun source => (payload source).map (source, ·)) =
      (List.range me.size).filterMap fun source =>
        (if source = me.rank then out.payload source else payload source).map (source, ·) := by
  have hpeers : (me.peers.filterMap fun source => (payload source).map (source, ·)) =
      ((List.range me.size).filter (· != me.rank)).filterMap fun source =>
        (if source = me.rank then out.payload source else payload source).map (source, ·) := by
    refine List.filterMap_congr fun source hsource => ?_
    rw [if_neg (Member.mem_peers.mp hsource).2]
  rw [hpeers]
  cases hcontent : out.content me.rank with
  | none =>
    have hframe : out.frame me.rank = none := by rw [Outgoing.frame, hcontent]; rfl
    have hpayload : out.payload me.rank = none := by rw [Outgoing.payload, hcontent]; rfl
    rw [hframe, List.filterMap_filter]
    refine List.filterMap_congr fun source _ => ?_
    by_cases heq : source = me.rank
    · simp [heq, hpayload]
    · simp [heq]
  | some content =>
    cases content with
    | error error =>
      rw [Outgoing.sendError, hcontent] at herror
      cases herror
    | ok data =>
      have hframe : out.frame me.rank = some (Frame.wrap data) := by
        rw [Outgoing.frame, hcontent]; rfl
      have hpayload : out.payload me.rank = some data := by
        rw [Outgoing.payload, hcontent]; rfl
      rw [hframe]
      exact insertOwn_filterMap List.pairwise_lt_range (List.mem_range.mpr hme)
        ((if_pos rfl).trans hpayload)

theorem payloads_eq {out : Nat → Outgoing} {me : Member} (hme : me.rank < me.size)
    (herror : (List.range me.size).findSome? (out me.rank).sendError = none) :
    (match (out me.rank).frame me.rank with
      | some frame => insertOwn me.rank frame.tail (me.peers.filterMap fun source =>
          ((out source).payload me.rank).map (source, ·))
      | none => me.peers.filterMap fun source => ((out source).payload me.rank).map (source, ·)) =
      (List.range me.size).filterMap fun source => ((out source).payload me.rank).map (source, ·) := by
  have hown := List.findSome?_eq_none_iff.mp herror me.rank (List.mem_range.mpr hme)
  rw [insertOwn_payloads hme hown fun source => (out source).payload me.rank]
  refine List.filterMap_congr fun source _ => ?_
  by_cases heq : source = me.rank
  · rw [if_pos heq, heq]
  · rw [if_neg heq]

end AllToAll

open AllToAll in
/-- All ranks of a group come to their outcomes, if all counts are sizes that a frame can have. -/
theorem allToAll_completes {α : Type} (unpack : Bytes → Except CodecError α) {n : Nat} (tag : Nat)
    {out : Nat → Outgoing} (hwords : 8 * n ≤ Word.bufferLimit)
    (hcount : ∀ r < n, ∀ s < n, (out r).count s + 1 ≤ Word.bufferLimit) :
    Completes n (fun s => (allToAll unpack ⟨s, n⟩ tag (out s)).run)
      fun s => outcome unpack out ⟨s, n⟩ := by
  have hcounts : Comm.Completes n (fun s => liftM (outgoingCounts ⟨s, n⟩ (out s)))
      fun s => (List.range n).map (out s).count := by
    refine .of_silent fun s _ => .of_fault ?_
    rw [outgoingCounts, Word.reserve_eq_ok_iff.mpr hwords]
    rfl
  have hexchange : Comm.Completes n
      (fun s => exchangeCounts ⟨s, n⟩ tag ((List.range n).map (out s).count))
      fun s => (List.range n).map fun r => (out r).count s := by
    have h := @exchangeCounts_completes n tag (fun s => (List.range n).map (out s).count) (by simp)
      fun r hr c hc => by
        obtain ⟨s, hs, rfl⟩ := List.mem_map.mp hc
        exact Nat.lt_trans (Nat.lt_succ_self _)
          (Word.lt_limit_of_le (hcount r hr s (List.mem_range.mp hs)))
    refine Completes.congr h (fun s _ => rfl) fun s hs => congrArg Except.ok ?_
    refine List.map_congr_left fun r _ => ?_
    simp [List.getD_eq_getElem?_getD, hs]
  refine hcounts.andThen (hexchange.andThen ?_)
  -- The frames go round, and every rank reports its first error only then.
  refine .of_round (Member.matches_peers n (tagOffset tag 1) fun r s => (out r).frame s) fun s hs => ?_
  have hsent := sendAll_yields ⟨s, n⟩ (tagOffset tag 1) (out s) fun r hr => hcount s hs r hr
  have hreceived := awaitAll_yields (tagOffset tag 1) out ⟨s, n⟩ (fun r hr => hcount r hr s hs)
    ((List.range n).findSome? (out s).sendError)
  rw [announced_eq out ⟨s, n⟩, zipIdx_map_range]
  refine (postReceives_yields (tagOffset tag 1) out ⟨s, n⟩ fun r hr => hcount r hr s hs).andThen ?_
  refine hsent.andThen ?_
  refine hreceived.andThen_silent ?_
  refine (Comm.Yields.lift (Program.performs_completeAll_send ..)).andThen ?_
  rw [outcome]
  cases herror : ((List.range n).findSome? (out s).sendError).or
    ((Member.peers ⟨s, n⟩).findSome? fun source => (out source).receiveError s source) with
  | some error => exact .refl _
  | none =>
    have hsend := (Option.or_eq_none_iff.mp herror).1
    have hpayloads := @payloads_eq out ⟨s, n⟩ hs hsend
    simp only at hpayloads
    simp only [if_pos hs]
    rw [← hpayloads]
    exact Comm.performs_liftM s _

end HaloMesh
