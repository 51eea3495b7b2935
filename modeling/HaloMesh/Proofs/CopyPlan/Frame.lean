-- SUMMARY: A refresh over any transport sends what was held before, and writes all or nothing of each source.
import HaloMesh.Proofs.Comm.Replies
import HaloMesh.Proofs.CopyPlan.Refresh
import HaloMesh.Proofs.CopyPlan.Storage

/-!
# Frame of a refresh

A transport may answer a receive by nothing or by any message. A refresh then either stops at one of
its checks, without a trace, or posts all of its requests, completes each of them and ends. What it
sends does not depend on what it receives. Of the region it changes only the ghost slots of one field,
and these source by source: the runs of a source get the values of its message, if that is as long as
they are, and are left alone otherwise.
-/

namespace HaloMesh

namespace CopyPlan

/-! ## Requests -/

/-- The receives that an exchange posts, one for each source. -/
def receives (p : CopyPlan) (size : Nat) : List Request :=
  p.remoteSources.map fun entry => .receive entry.1 p.tag (Run.totalLength entry.2 * size)

/-- The messages to the other colors from a color that holds `data`, by their destinations. -/
def messages (p : CopyPlan) (size : Nat) (data : Bytes) : List (Nat × Nat × Bytes) :=
  (p.destinations.filter (· != p.color)).map fun dest => (dest, p.tag, p.carried size data dest)

/-- The requests that carry the messages. -/
def sends (p : CopyPlan) (size : Nat) (data : Bytes) : List Request :=
  (p.messages size data).map fun (dest, tag, payload) => .send dest tag payload

/-- The events of an exchange, given what its sources reply. -/
def events (p : CopyPlan) (size : Nat) (data : Bytes) (replies : List (Option Bytes)) : List Event :=
  History.posts (p.receives size ++ p.sends size data) ++
    History.completions ((p.receives size).zip replies ++ (p.sends size data).map (·, none))

section
variable {p : CopyPlan} {n size : Nat} {data mid : Bytes} {transport : Transport} {history : History}

theorem Sound.sends_eq (h : p.Sound n) : p.sends size data = p.remoteDestinations.map fun entry =>
    .send entry.1 p.tag (entry.2.flatMap (Run.taken (data.element size))) := by
  rw [sends, messages, List.map_map, destinations, List.filter_map, List.map_map, remoteDestinations]
  refine List.map_congr_left fun entry hentry => ?_
  have hcarried : p.carried size data entry.1 = entry.2.flatMap (Run.taken (data.element size)) := by
    rw [carried, h.sendsTo_of_mem (List.mem_of_mem_filter hentry)]
  exact congrArg (Request.send entry.1 p.tag) hcarried

theorem exists_of_mem_sends {request : Request} (hrequest : request ∈ p.sends size data) :
    ∃ peer tag payload, request = .send peer tag payload := by
  obtain ⟨⟨dest, tag, payload⟩, -, rfl⟩ := List.mem_map.mp hrequest
  exact ⟨dest, tag, payload, rfl⟩

/-- What is sent are the messages, whatever the sources reply. -/
theorem sent_extend_events (history : History) (logs : List LogRecord) (replies : List (Option Bytes)) :
    (history.extend (logs.map .logged ++ p.events size data replies)).sent =
      history.sent ++ p.messages size data := by
  have hlogs : (history.extend (logs.map .logged)).sent = history.sent := by
    refine History.sent_extend_of_silent fun e he _ _ _ => ?_
    obtain ⟨record, -, rfl⟩ := List.mem_map.mp he
    exact nofun
  have hreceives : ∀ history : History,
      (history.extend (History.posts (p.receives size))).sent = history.sent := by
    refine fun history => History.sent_extend_of_silent fun e he _ _ _ => ?_
    obtain ⟨request, hrequest, rfl⟩ := List.mem_map.mp he
    obtain ⟨entry, -, rfl⟩ := List.mem_map.mp hrequest
    exact nofun
  have hcompletions : ∀ (history : History) (requests : List (Request × Option Bytes)),
      (history.extend (History.completions requests)).sent = history.sent := by
    refine fun history requests => History.sent_extend_of_silent fun e he _ _ _ => ?_
    obtain ⟨⟨request, message⟩, -, rfl⟩ := List.mem_map.mp he
    exact nofun
  rw [events, History.posts, List.map_append, History.extend_append, History.extend_append,
    History.extend_append, hcompletions]
  refine (History.sent_extend_sends _ _).trans ?_
  rw [hreceives, hlogs]

/-! ## Posting -/

theorem Sound.postReceive_over (h : p.Sound n) (hbytes : p.slots * size ≤ Word.bufferLimit)
    {entry : Nat × List Run} (hentry : entry ∈ p.recv) :
    (p.postReceive size entry).Ends transport history data
      [.posted (.receive entry.1 p.tag (Run.totalLength entry.2 * size))]
      (.ok (.receive entry.1 p.tag (Run.totalLength entry.2 * size))) data := by
  obtain ⟨source, runs⟩ := entry
  have hruns := h.received _ hentry
  have htotal : Summary.ofRuns runs = .ok (Summary.total runs) := hruns.ofRuns_eq_ok h.slots_lt
  have hle : Run.totalLength runs * size ≤ Word.bufferLimit :=
    Nat.le_trans (Nat.mul_le_mul_right _ hruns.total_le) hbytes
  have hlength : Word.mul (Run.totalLength runs) size = .ok (Run.totalLength runs * size) :=
    Word.mul_of_le hle
  refine (CommState.Ends.of_fault htotal).bind_silent ?_
  refine (CommState.Ends.of_fault hlength).bind_silent ?_
  refine (CommState.Ends.of_fault (Word.reserve_eq_ok_iff.mpr hle)).bind_silent ?_
  exact (CommState.Ends.issue _).then_silent (.pure _)

theorem Sound.postReceives_over (h : p.Sound n) (hbytes : p.slots * size ≤ Word.bufferLimit) :
    CommState.Ends (p.remoteSources.mapM (p.postReceive size)) transport history data
      (History.posts (p.receives size)) (.ok (p.receives size)) data := by
  have hposts := @CommState.Ends.mapM _ _ _ transport history data (p.postReceive size)
    (fun entry => [.posted (.receive entry.1 p.tag (Run.totalLength entry.2 * size))])
    (fun entry => .receive entry.1 p.tag (Run.totalLength entry.2 * size)) p.remoteSources
    fun entry hentry _ => h.postReceive_over hbytes (List.mem_of_mem_filter hentry)
  rw [← List.map_eq_flatMap] at hposts
  rw [History.posts, receives, List.map_map]
  exact hposts

theorem Sound.postSend_over (h : p.Sound n) (hbytes : p.slots * size ≤ Word.bufferLimit)
    (hdata : data.length = p.slots * size) {entry : Nat × List Run} (hentry : entry ∈ p.send) :
    (p.postSend size entry).Ends transport history data
      [.posted (.send entry.1 p.tag (entry.2.flatMap (Run.taken (data.element size))))]
      (.ok (.send entry.1 p.tag (entry.2.flatMap (Run.taken (data.element size))))) data := by
  obtain ⟨dest, runs⟩ := entry
  have hruns := h.sent _ hentry
  have hgather : Run.gather size data runs = .ok (runs.flatMap (Run.taken (data.element size))) :=
    Run.gather_eq_ok (Bytes.shows_element hdata) (h.src_stop_le _ hentry) h.slots_lt hbytes
      (Nat.lt_of_le_of_lt hruns.total_le h.slots_lt)
      (Nat.le_trans (Nat.mul_le_mul_right _ hruns.total_le) hbytes)
  refine CommState.Ends.get.bind_silent ?_
  refine (CommState.Ends.of_fault hgather).bind_silent ?_
  exact (CommState.Ends.issue _).then_silent (.pure _)

theorem Sound.postSends_over (h : p.Sound n) (hbytes : p.slots * size ≤ Word.bufferLimit)
    (hdata : data.length = p.slots * size) :
    CommState.Ends (p.remoteDestinations.mapM (p.postSend size)) transport history data
      (History.posts (p.sends size data)) (.ok (p.sends size data)) data := by
  have hposts := @CommState.Ends.mapM _ _ _ transport history data (p.postSend size)
    (fun entry => [.posted (.send entry.1 p.tag (entry.2.flatMap (Run.taken (data.element size))))])
    (fun entry => .send entry.1 p.tag (entry.2.flatMap (Run.taken (data.element size))))
    p.remoteDestinations fun entry hentry _ => h.postSend_over hbytes hdata (List.mem_of_mem_filter hentry)
  rw [← List.map_eq_flatMap] at hposts
  rw [History.posts, h.sends_eq, List.map_map]
  exact hposts

/-! ## Replies -/

theorem awaitSource_over (error : Option MeshError) (entry : Nat × List Run) (request : Request) :
    (awaitSource size error (entry, request)).Ends transport history data
      [.completed request (Program.outcome transport history request)]
      (.ok (absorb size (error, data) (entry, Program.outcome transport history request)).1)
      (absorb size (error, data) (entry, Program.outcome transport history request)).2 := by
  refine (CommState.Ends.complete request).then_silent ?_
  rw [absorb]
  cases messageFrom entry.1 (Run.totalLength entry.2 * size)
      (Program.outcome transport history request) with
  | ok message => exact (CommState.Ends.update _).bind_silent (.pure error)
  | error cause => exact .pure _

/-- Whatever the transport replies, the replies are dealt with one after the other. -/
theorem awaitSources_over (error : Option MeshError) {entries : List (Nat × List Run)}
    {requests : List Request} (hrequests : requests.length = entries.length) :
    ∃ replies, replies.length = entries.length ∧
      CommState.Ends ((entries.zip requests).foldlM (awaitSource size) error) transport history data
        (History.completions (requests.zip replies))
        (.ok ((entries.zip replies).foldl (absorb size) (error, data)).1)
        ((entries.zip replies).foldl (absorb size) (error, data)).2 := by
  induction entries generalizing requests error data history with
  | nil => exact ⟨[], rfl, by
      rw [List.zip_nil_right]
      exact .pure error⟩
  | cons entry entries ih =>
    obtain ⟨request, requests, rfl⟩ := List.exists_cons_of_length_eq_add_one hrequests
    have hstep := @awaitSource_over size data transport history error entry request
    obtain ⟨replies, hreplies, hrest⟩ := ih _ (Nat.succ.inj hrequests)
    refine ⟨Program.outcome transport history request :: replies, congrArg (· + 1) hreplies, ?_⟩
    rw [List.zip_cons_cons, List.foldlM_cons]
    exact hstep.bind hrest

/-! ## The exchange -/

/-- An exchange posts all of its requests, completes each of them and ends, whatever the replies. -/
theorem Sound.exchange_over (h : p.Sound n) (hbytes : p.slots * size ≤ Word.bufferLimit)
    (hdata : data.length = p.slots * size) :
    ∃ replies data', replies.length = p.remoteSources.length ∧
      (p.exchange size).Ends transport history data
        (p.events size data replies)
        (ending ((p.remoteSources.zip replies).findSome? (lack? size))) data' ∧
      data'.length = p.slots * size ∧
      p.Exchanged size replies (data.element size) (data'.element size) := by
  obtain ⟨mid, hcopies, hexchanged⟩ := h.exists_exchanged hbytes hdata
  have hcopied : ((p.recv.runsOf p.color).forM (copyOwn size)).Ends transport
      (history.extend (History.posts (p.receives size ++ p.sends size data))) data [] (.ok ()) mid := by
    rw [CommState.Ends, copyOwn_eq_done hcopies]
    rfl
  obtain ⟨replies, hreplies, hawait⟩ := @awaitSources_over size mid transport
    (history.extend (History.posts (p.receives size ++ p.sends size data))) none p.remoteSources
    (p.receives size) (List.length_map _)
  obtain ⟨hlength, hexchanged⟩ := hexchanged replies hreplies
  refine ⟨replies, _, hreplies, ?_, hlength, hexchanged⟩
  have hposts : History.posts (p.receives size ++ p.sends size data) =
      History.posts (p.receives size) ++ History.posts (p.sends size data) := List.map_append
  rw [hposts, History.extend_append] at hcopied hawait
  rw [events, hposts, History.completions, List.map_append, List.append_assoc]
  refine (h.postReceives_over hbytes).bind ?_
  refine (h.postSends_over hbytes hdata).bind ?_
  refine hcopied.bind_silent ?_
  refine hawait.bind ?_
  refine (CommState.Ends.lift (Program.runOver_completeAll_send fun _ => exists_of_mem_sends)).then_silent ?_
  rw [fst_foldl_absorb, Option.none_or]
  cases (p.remoteSources.zip replies).findSome? (lack? size) with
  | none => exact .pure ()
  | some error => rfl

end

/-! ## The refresh -/

/-- The error with which a refresh of a field stops if the region fails one of its checks. -/
def objection? (p : CopyPlan) (info : FieldInfo) (region : Region) : Option MeshError :=
  if region.color ≠ p.color ∨ region.length ≠ p.slots then
    some (.invariant (.foreignRegion p.color p.slots region.color region.length))
  else if info.indexSpace ≠ region.indexSpace then
    some (.fieldSpaceMismatch info.field region.indexSpace info.indexSpace)
  else
    match region.buffer? info.field with
    | some buffer =>
      if buffer.typeSize = info.typeSize then none
      else some (.fieldTypeSize info.field buffer.typeSize info.typeSize)
    | none => none

/-- What a refresh makes of a region that passes its checks, given what its sources reply. The field
then holds `data`. -/
structure Refills (p : CopyPlan) (info : FieldInfo) (replies : List (Option Bytes))
    (region region' : Region) (data : Bytes) : Prop where
  shape : region.SameShape region'
  others : ∀ field, field ≠ info.field → region'.buffer? field = region.buffer? field
  buffer : region'.buffer? info.field = some ⟨data, info.typeSize, region.ghostsValid info.field⟩
  length_eq : data.length = region.length * info.typeSize
  exchanged : p.Exchanged info.typeSize replies ((region.stored info).element info.typeSize)
    (data.element info.typeSize)

/-- The same in terms of the record of the color, whose owned slots and padding stay as they are. -/
structure Frames (p : CopyPlan) (me : IndexColoring) (info : FieldInfo) (replies : List (Option Bytes))
    (region region' : Region) (data : Bytes) : Prop where
  shape : region.SameShape region'
  others : ∀ field, field ≠ info.field → region'.buffer? field = region.buffer? field
  buffer : region'.buffer? info.field = some ⟨data, info.typeSize, region.ghostsValid info.field⟩
  length_eq : data.length = region.length * info.typeSize
  received : ∀ source ∈ p.remoteSources.zip replies, Absorbed info.typeSize source
    ((region.stored info).element info.typeSize) (data.element info.typeSize)
  copied : ∀ r ∈ p.recv.runsOf p.color, ∀ fill ∈ r.fills,
    data.element info.typeSize fill.dest = (region.stored info).element info.typeSize fill.src
  kept : ∀ x, me.IsOwned x ∨ me.IsPadding x → ∃ slot, me.linear x = .ok slot ∧
    data.element info.typeSize slot = (region.stored info).element info.typeSize slot

section
variable {p : CopyPlan} {n : Nat} {info : FieldInfo} {region : Region} {transport : Transport}
  {history : History}

theorem accepts_of_objection?_eq_none (hnone : p.objection? info region = none)
    (hroom : region.HasRoom info) : p.Accepts info region := by
  rw [objection?] at hnone
  split at hnone
  · cases hnone
  · rename_i hregion
    split at hnone
    · cases hnone
    · rename_i hspace
      rw [not_or, not_not, not_not] at hregion
      refine ⟨hregion.1, hregion.2, not_not.mp hspace, fun buffer hbuffer => ?_, hroom⟩
      rw [hbuffer] at hnone
      by_contra hsize
      simp only [hsize, if_false] at hnone
      cases hnone

/-- A check that fails leaves no trace. -/
theorem refresh_over_of_objection? {error : MeshError} (herror : p.objection? info region = some error)
    (hroom : region.HasRoom info) :
    (p.refresh info).Ends transport history region [] (.error (.reported error)) region := by
  have hensure : ∀ {failure : Failure}, p.checkRegion region = .ok () →
      (Region.ensure info).run.run region = .done (.error failure, region) →
        (p.refresh info).Ends transport history region [] (.error failure) region := by
    intro failure hregion hdone
    have hfails : (Region.ensure info).Ends transport history region [] (.error failure) region := by
      rw [CommState.Ends, hdone]
      rfl
    exact CommState.Ends.get.bind_silent ((CommState.Ends.of_error hregion).bind_silent (hfails.fail _))
  rw [objection?] at herror
  split at herror
  · rename_i hregion
    cases herror
    have hforeign : p.checkRegion region =
        .error (.invariant (.foreignRegion p.color p.slots region.color region.length)) :=
      if_neg fun h => hregion.elim (absurd h.1) (absurd h.2)
    exact CommState.Ends.get.bind_silent ((CommState.Ends.of_reported hforeign).fail _)
  · rename_i hregion
    rw [not_or, not_not, not_not] at hregion
    have hregion : p.checkRegion region = .ok () := if_pos hregion
    split at herror
    · rename_i hspace
      cases herror
      obtain ⟨hallocate, htext⟩ := Region.allocate_of_space_ne hspace
      exact hensure hregion (Region.ensure_eq_done hallocate htext)
    · rename_i hspace
      split at herror
      · rename_i buffer hbuffer
        split at herror
        · cases herror
        · rename_i hsize
          cases herror
          obtain ⟨hallocate, htext⟩ :=
            Region.allocate_of_typeSize_ne (not_not.mp hspace) hroom hbuffer hsize
          exact hensure hregion (Region.ensure_eq_done hallocate htext)
      · cases herror

/-- A region that passes the checks is given the buffer, and then the exchange runs on its bytes. -/
theorem Accepts.refresh_over (h : p.Accepts info region) (transport : Transport) (history : History) :
    ∃ logs : List LogRecord, ∀ es result data',
      (p.exchange info.typeSize).Ends transport (history.extend (logs.map .logged)) (region.stored info)
          es result data' →
        (p.refresh info).Ends transport history region (logs.map .logged ++ es) result
          ((region.ensured info).setBytes info.field data') := by
  obtain ⟨allocation, hensure⟩ := Region.ensure_over h.admits.allocate_eq_ok transport history
  let text :=
    s!"ghost copy space={p.indexSpace} fid={info.field} color={p.color}: {p.ghostLength} slots"
  refine ⟨allocation ++ [⟨.trace, text⟩], fun es result data' hexchange => ?_⟩
  refine CommState.Ends.get.bind_silent ?_
  refine (CommState.Ends.of_error h.checkRegion_eq_ok).bind_silent ?_
  rw [List.map_append, History.extend_append] at hexchange
  rw [List.map_append, List.append_assoc]
  refine hensure.bind ((CommState.Ends.record .trace text).bind ?_)
  refine CommState.Ends.get.bind_silent ?_
  refine (CommState.Ends.of_error (Region.bytes_ensured h.admits.space_eq)).bind_silent ?_
  refine (CommState.Ends.lift hexchange).then_silent ?_
  exact (CommState.Ends.update _).bind_silent (.of_result result)

/-- A region that passes the checks of a plan is refreshed, wherever the replies come from. -/
theorem Accepts.exists_refills (h : p.Accepts info region) (hsound : p.Sound n) {sizes : Nat → Nat}
    (hsized : region.Sized sizes) (transport : Transport) (history : History) :
    ∃ (logs : List LogRecord) (replies : List (Option Bytes)) (es : List Event)
        (region' : Region) (data : Bytes), replies.length = p.remoteSources.length ∧
      es = logs.map .logged ++ p.events info.typeSize (region.stored info) replies ∧
      (p.refresh info).Ends transport history region es
        (ending ((p.remoteSources.zip replies).findSome? (lack? info.typeSize))) region' ∧
      (history.extend es).sent = history.sent ++ p.messages info.typeSize (region.stored info) ∧
      p.Refills info replies region region' data := by
  have hlength := hsized.length_stored_of_admits h.admits
  have hbytes := h.admits.room.le
  rw [h.length_eq] at hlength hbytes
  obtain ⟨logs, hrefresh⟩ := h.refresh_over transport history
  obtain ⟨replies, data, hreplies, hexchange, hdata, hexchanged⟩ :=
    @Sound.exchange_over _ _ info.typeSize _ transport (history.extend (logs.map .logged))
      hsound hbytes hlength
  refine ⟨logs, replies, _, _, data, hreplies, rfl, hrefresh _ _ _ hexchange,
    sent_extend_events history logs replies, ?_⟩
  exact {
    shape := (Region.sameShape_ensured region info).trans (Region.sameShape_setBytes _ _ _)
    others := fun field hfield => by
      rw [Region.buffer?_setBytes, if_neg hfield, Region.buffer?_ensured, if_neg hfield]
    buffer := by
      rw [Region.buffer?_setBytes, if_pos rfl, Region.buffer?_ensured, if_pos rfl, Region.ghostsValid]
      cases hbuffer : region.buffer? info.field with
      | some buffer =>
        have hsize := h.admits.typeSize_eq buffer hbuffer
        exact hsize ▸ rfl
      | none => rfl
    length_eq := by rw [hdata, h.length_eq]
    exchanged := hexchanged }

end

/-! ## Slots -/

section
variable {coloring : Coloring} {space : Nat} {d : ColoringDefinition} {parts : List IndexColoring}
  {color : Nat}

/-- What a color sends are values that it owns. -/
theorem isOwned_of_sendsTo (h : coloring.HasSpace space d parts) (hcolor : color < parts.length)
    {dest : Nat} {r : Run} (hr : r ∈ (plansOf space d parts color).sendsTo dest) {fill : Fill}
    (hfill : fill ∈ r.fills) : ∃ y, parts[color].IsOwned y ∧ parts[color].linear y = .ok fill.src := by
  obtain ⟨runs, hruns, hr⟩ := RunTable.mem_of_mem_runsOf hr
  have hdest := ((mem_destinations_planOf h).mp (List.mem_map_of_mem hruns)).1
  obtain rfl : runs = sentTo d color dest := (eq_of_mem_send hruns).1
  obtain ⟨hr, hsource⟩ := mem_runsOf_of_mem_sentTo hr
  have hcolorOf : fill.source = color := by
    obtain ⟨i, -, rfl⟩ := List.mem_map.mp hfill
    exact hsource
  obtain ⟨nb, _, y, hnb, -, -, howned, hslot, -⟩ :=
    (Ghost.covers_fillsAt h hdest).source fill (Ghost.mem_fillsOf h hr hfill)
  rw [hcolorOf, List.getElem?_eq_getElem hcolor] at hnb
  cases hnb
  exact ⟨y, howned, hslot⟩

/-- Nothing but the ghosts of the field changes. -/
theorem Refills.frames (h : coloring.HasSpace space d parts) (hcolor : color < parts.length)
    {info : FieldInfo} {replies : List (Option Bytes)} {region region' : Region} {data : Bytes}
    (hrefills : (plansOf space d parts color).Refills info replies region region' data) :
    (plansOf space d parts color).Frames parts[color] info replies region region' data where
  shape := hrefills.shape
  others := hrefills.others
  buffer := hrefills.buffer
  length_eq := hrefills.length_eq
  received := hrefills.exchanged.received
  copied := hrefills.exchanged.copied
  kept x hx := by
    have hwithin := (IndexColoring.within_and_not_isGhost (h.partsOf.describes color hcolor)
      (h.valid.hasPositions_position h.fits color) hx).1
    have hslot := Ghost.linear_eq_ok h hcolor hwithin
    refine ⟨_, hslot, hrefills.exchanged.kept _ ?_ fun hmem => ?_⟩
    · rw [slots_plansOf hcolor]
      exact Grid.number_lt_prod hwithin
    · exact Ghost.not_mem_dests h hcolor hx hslot ((mem_dests_planOf h.valid _).mp hmem)

end

/-- A refresh of any field of any region over any transport, with a plan that was derived. If the
region fails a check, nothing is posted and the region stays as it is. Otherwise all requests are
posted and completed and the owned values of the other colors are sent as they were before, whether
the refresh succeeds or fails. It fails with the error of the first source that did not reply as
expected, and of the region only the ghost slots of the field change, those of each source together. -/
theorem refresh_frames {spec : ColoringSpec} (hrep : spec.Representable) {coloring : Coloring}
    (hof : Coloring.ofSpec spec = .ok coloring) {space color : Nat} {p : CopyPlan}
    (hplan : ofColoring coloring space color = .ok p) {info : FieldInfo} {region : Region}
    {sizes : Nat → Nat} (hsized : region.Sized sizes) (hroom : region.HasRoom info)
    (transport : Transport) (history : History) :
    ∃ parts me, coloring.parts[space]? = some parts ∧ parts[color]? = some me ∧
      p.sources.Nodup ∧ p.destinations.Nodup ∧
      (∀ dest, ∀ r ∈ p.sendsTo dest, ∀ fill ∈ r.fills,
        ∃ y, me.IsOwned y ∧ me.linear y = .ok fill.src) ∧
      match p.objection? info region with
      | some error =>
        (p.refresh info).Ends transport history region [] (.error (.reported error)) region
      | none => ∃ (logs : List LogRecord) (replies : List (Option Bytes)) (es : List Event)
          (region' : Region) (data : Bytes), replies.length = p.remoteSources.length ∧
        es = logs.map .logged ++ p.events info.typeSize (region.stored info) replies ∧
        (p.refresh info).Ends transport history region es
          (ending ((p.remoteSources.zip replies).findSome? (lack? info.typeSize))) region' ∧
        (history.extend es).sent = history.sent ++ p.messages info.typeSize (region.stored info) ∧
        p.Frames me info replies region region' data := by
  obtain ⟨d, parts, h⟩ := Coloring.exists_hasSpace hrep hof (space_lt_of_ofColoring hplan)
  have hcolor : color < parts.length := by
    obtain ⟨d', hstores⟩ := Coloring.exists_stores hof (space_lt_of_ofColoring hplan)
    exact h.colors_eq ▸ (eq_planOf_of_ofColoring hstores hplan).1
  obtain rfl : p = plansOf space d parts color :=
    Except.ok.inj (hplan.symm.trans (ofColoring_eq_plansOf h hcolor))
  have hsound := (family_plansOf h).sound color hcolor
  refine ⟨parts, parts[color], h.records, List.getElem?_eq_getElem hcolor,
    hsound.sources_increasing.imp Nat.ne_of_lt, hsound.destinations_increasing.imp Nat.ne_of_lt,
    fun _ _ hr _ hfill => isOwned_of_sendsTo h hcolor hr hfill, ?_⟩
  cases hobjection : (plansOf space d parts color).objection? info region with
  | some error => exact refresh_over_of_objection? hobjection hroom
  | none =>
    obtain ⟨logs, replies, es, region', data, hreplies, hes, hends, hsent, hrefills⟩ :=
      (accepts_of_objection?_eq_none hobjection hroom).exists_refills hsound hsized transport history
    exact ⟨logs, replies, es, region', data, hreplies, hes, hends, hsent, hrefills.frames h hcolor⟩

/-- The first of three colors on a ring of six indices refreshes a field, and the last one does not
reply. -/
theorem refresh_frames_on_ring :
    let spec : ColoringSpec := ⟨[⟨[3], [6], [1], [0], [true]⟩]⟩
    let info : FieldInfo := ⟨7, 0, 1⟩
    let region : Region := ⟨0, 0, 4, [(7, ⟨[0, 1, 2, 0], 1, true⟩)]⟩
    let transport : Transport := fun _ peer _ length => if peer = 1 then some (.zeros length) else none
    spec.Representable ∧ ∃ coloring p, Coloring.ofSpec spec = .ok coloring ∧
      ofColoring coloring 0 0 = .ok p ∧ region.Sized (fun _ => 1) ∧ region.HasRoom info ∧
        p.objection? info region = none ∧
        ∃ parts me, coloring.parts[0]? = some parts ∧ parts[0]? = some me ∧
          p.sources.Nodup ∧ p.destinations.Nodup ∧
          (∀ dest, ∀ r ∈ p.sendsTo dest, ∀ fill ∈ r.fills,
            ∃ y, me.IsOwned y ∧ me.linear y = .ok fill.src) ∧
          ∃ (logs : List LogRecord) (replies : List (Option Bytes)) (es : List Event)
              (region' : Region) (data : Bytes), replies.length = p.remoteSources.length ∧
            es = logs.map .logged ++ p.events info.typeSize (region.stored info) replies ∧
            (p.refresh info).Ends transport [] region es
              (ending ((p.remoteSources.zip replies).findSome? (lack? info.typeSize))) region' ∧
            (History.extend [] es).sent = p.messages info.typeSize (region.stored info) ∧
            p.Frames me info replies region region' data := by
  intro spec info region transport
  have hrep : spec.Representable := by decide
  obtain ⟨d, parts, h⟩ := Coloring.exists_hasSpace hrep rfl (s := 0) (by decide)
  have hcolor : 0 < parts.length := by
    rw [h.colors_eq]
    decide
  have hplan := ofColoring_eq_plansOf h hcolor
  have hsized : region.Sized fun _ => 1 := by
    intro field buffer hbuffer
    obtain ⟨entry, hentry, rfl⟩ := Option.map_eq_some_iff.mp hbuffer
    obtain rfl := List.mem_singleton.mp (List.mem_of_find?_eq_some hentry)
    exact ⟨rfl, rfl⟩
  have hroom : region.HasRoom info := show Region.chunked (4 * 1) ≤ Word.bufferLimit by decide
  have hslots : (plansOf 0 d parts 0).slots = 4 := by
    have hparts := h.records
    cases hparts
    exact slots_plansOf hcolor
  have hobjection : (plansOf 0 d parts 0).objection? info region = none := by
    rw [objection?, hslots]
    rfl
  have hframes := refresh_frames hrep rfl hplan hsized hroom transport []
  rw [hobjection] at hframes
  exact ⟨hrep, _, _, rfl, hplan, hsized, hroom, hobjection, hframes⟩

end CopyPlan

end HaloMesh
