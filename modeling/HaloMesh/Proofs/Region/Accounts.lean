-- SUMMARY: A region is a map from fields to bytes, which the calls on it so far give account of.
import Mathlib.Data.List.TakeWhile
import HaloMesh.Proofs.Comm.Attempts
import HaloMesh.Proofs.Region

/-!
# Accounts of fields

What a region stores can be told from the calls on it. The first call that reaches the buffer of a field
sets the size of its elements, and from then on the field holds zeros with all that was written through
its own bytes over them. The flag of the field is the last that was set since then. So a region is a map
from fields to buffers, `Storage.told`, and every call is answered as this map says. A call may reach the
buffer of a field and fail all the same, if the bytes cannot be viewed as elements of the type that was
asked for. Then the field has its buffer, and nothing is written to it.
-/

namespace HaloMesh

namespace Region

/-! ## Calls -/

/-- A change of bytes in place. -/
structure Edit where
  apply : Bytes → Bytes
  length_apply : ∀ data, (apply data).length = data.length

/-- The change that leaves the bytes as they are. -/
def Edit.keep : Edit := ⟨id, fun _ => rfl⟩

/-- A call on a region. The bytes that `bytesMut` and `viewMut` hand out are changed by the caller. -/
inductive Call where
  | bytesMut (info : FieldInfo) (edit : Edit)
  | viewMut (info : FieldInfo) (element : ElementType) (edit : Edit)
  | bytes (info : FieldInfo)
  | view (info : FieldInfo) (element : ElementType)
  | setGhostsValid (field : Nat) (valid : Bool)
  | ghostsValid (field : Nat)

/-- What a call returns. -/
inductive Answer where
  | done
  | bytes (data : Bytes)
  | view (view : View)
  | flag (valid : Bool)
  deriving DecidableEq, Repr

namespace Call

/-- The field that the call is for. -/
def field : Call → Nat
  | bytesMut info _ | viewMut info _ _ | bytes info | view info _ => info.field
  | setGhostsValid field _ | ghostsValid field => field

/-- The field whose bytes the call hands out to be changed, and the change. -/
def handsOut? : Call → Option (FieldInfo × Edit)
  | bytesMut info edit | viewMut info _ edit => some (info, edit)
  | _ => none

/-- Whether the call can change a region. -/
def changes : Call → Bool
  | bytesMut .. | viewMut .. | setGhostsValid .. => true
  | bytes .. | view .. | ghostsValid .. => false

/-- The buffer that the call may need can be allocated. -/
def HasRoom (call : Call) (length : Nat) : Prop :=
  ∀ info edit, call.handsOut? = some (info, edit) → chunked (length * info.typeSize) ≤ Word.bufferLimit

/-- Perform the call. -/
def perform : Call → CommState Region Answer
  | bytesMut info edit => do
    ensure info
    let data ← (← getThe Region).bytes info
    modify (·.setBytes info.field (edit.apply data))
    return .bytes data
  | viewMut info element edit => do
    let view ← ensureView info element
    modify (·.setBytes info.field (edit.apply view.bytes))
    return .view view
  | bytes info => return .bytes (← (← getThe Region).bytes info)
  | view info element => return .view (← (← getThe Region).view info element)
  | setGhostsValid field valid => do
    modify (·.setGhostsValid field valid)
    return .done
  | ghostsValid field => return .flag ((← getThe Region).ghostsValid field)

end Call

/-! ## Storage as a map -/

/-- The fields of one index space as a map from ids to buffers. -/
structure Storage where
  indexSpace : Nat
  /-- The number of elements of every field. -/
  length : Nat
  buffer? : Nat → Option FieldBuffer

namespace Storage

variable (s : Storage)

/-- The bytes that a field has or is to get. -/
def grant (info : FieldInfo) : Except MeshError Bytes :=
  if info.indexSpace = s.indexSpace then
    match s.buffer? info.field with
    | some buffer =>
      if buffer.typeSize = info.typeSize then .ok buffer.bytes
      else .error (.fieldTypeSize info.field buffer.typeSize info.typeSize)
    | none => .ok (.zeros (s.length * info.typeSize))
  else .error (.fieldSpaceMismatch info.field s.indexSpace info.indexSpace)

/-- The bytes that a field has. -/
def read (info : FieldInfo) : Except MeshError Bytes :=
  if info.indexSpace = s.indexSpace then
    match s.buffer? info.field with
    | some buffer => .ok buffer.bytes
    | none => .error (.fieldUnallocated info.field)
  else .error (.fieldSpaceMismatch info.field s.indexSpace info.indexSpace)

/-- What a call is answered. -/
def answer : Call → Except MeshError Answer
  | .bytesMut info _ => return .bytes (← s.grant info)
  | .viewMut info element _ => do
    checkElement info element
    return .view (← castTo info element (← s.grant info))
  | .bytes info => return .bytes (← s.read info)
  | .view info element => do
    checkElement info element
    return .view (← castTo info element (← s.read info))
  | .setGhostsValid _ _ => return .done
  | .ghostsValid field => return .flag ((s.buffer? field).any (·.ghostsValid))

end Storage

/-- The region as a map. -/
def storage (region : Region) : Storage := ⟨region.indexSpace, region.length, region.buffer?⟩

/-- Every buffer has room for exactly the elements of its field. -/
def Whole (region : Region) : Prop :=
  ∀ field buffer, region.buffer? field = some buffer →
    buffer.bytes.length = region.length * buffer.typeSize

/-- The field whose buffer a call reaches and the change that it makes, as can be told from what it
returns. If the bytes cannot be viewed as was asked, nothing is changed, but the field has its buffer. -/
def reached? (call : Call) (outcome : Except Failure Answer) : Option (FieldInfo × Edit) :=
  match call with
  | .bytesMut info edit => if outcome.isOk then some (info, edit) else none
  | .viewMut info _ edit =>
    match outcome with
    | .ok _ => some (info, edit)
    | .error (.reported (.invariant _)) => some (info, .keep)
    | .error _ => none
  | _ => none

/-- The region in which the buffer of a field is reached and changed. -/
def edited (region : Region) (info : FieldInfo) (edit : Edit) : Region :=
  (region.ensured info).setBytes info.field (edit.apply (region.stored info))

/-- The region that a call leaves, given what it returns. -/
def after (region : Region) (call : Call) (outcome : Except Failure Answer) : Region :=
  match call with
  | .setGhostsValid field valid => region.setGhostsValid field valid
  | _ => (reached? call outcome).elim region fun (info, edit) => region.edited info edit

variable {region : Region} {info : FieldInfo} {data : Bytes} {transport : Transport} {h : History}

/-! ## What a call comes to -/

/-- Bytes that are handed out are those of a field that passes the checks before its buffer. -/
theorem admits_of_grant (hgrant : region.storage.grant info = .ok data) (hroom : region.HasRoom info) :
    region.Admits info ∧ data = region.stored info := by
  unfold Storage.grant at hgrant
  split at hgrant
  case isFalse => cases hgrant
  case isTrue hspace =>
    unfold stored
    split at hgrant
    case h_1 buffer hbuffer =>
      have hbuffer : region.buffer? info.field = some buffer := hbuffer
      split at hgrant
      case isFalse => cases hgrant
      case isTrue hsize =>
        cases hgrant
        rw [hbuffer]
        refine ⟨⟨hspace, fun other hother => ?_, hroom⟩, rfl⟩
        cases hbuffer.symm.trans hother
        exact hsize
    case h_2 hnone =>
      have hnone : region.buffer? info.field = none := hnone
      cases hgrant
      rw [hnone]
      refine ⟨⟨hspace, fun other hother => ?_, hroom⟩, rfl⟩
      cases hnone.symm.trans hother

/-- A field that gets no bytes leaves the region as it is. -/
theorem ensure_of_grant_error {error : MeshError} (hgrant : region.storage.grant info = .error error)
    (hroom : region.HasRoom info) :
    (ensure info).Ends transport h region [] (.error (.reported error)) region := by
  have hends : ∀ {failure : Failure}, region.allocate info = .error failure ∧
      region.allocationText? info = none →
        (ensure info).Ends transport h region [] (.error failure) region := by
    rintro failure ⟨hallocate, htext⟩
    rw [CommState.Ends, ensure_eq_done hallocate htext]
    rfl
  unfold Storage.grant at hgrant
  split at hgrant
  case isFalse hspace =>
    cases hgrant
    exact hends (allocate_of_space_ne hspace)
  case isTrue hspace =>
    split at hgrant
    case h_2 => cases hgrant
    case h_1 buffer hbuffer =>
      split at hgrant
      case isTrue => cases hgrant
      case isFalse hsize =>
        cases hgrant
        exact hends (allocate_of_typeSize_ne hspace hroom hbuffer hsize)

theorem read_storage (region : Region) (info : FieldInfo) : region.storage.read info = region.bytes info := by
  by_cases hspace : info.indexSpace = region.indexSpace
  · rw [bytes, checkSpace_eq_ok hspace, Checked.ok_bind]
    exact if_pos hspace
  · rw [bytes, checkSpace, if_neg hspace]
    exact if_neg hspace

/-- A view is answered as the region has it. -/
theorem answer_view (region : Region) (info : FieldInfo) (element : ElementType) :
    region.storage.answer (.view info element) = (region.view info element).map .view := by
  rw [Storage.answer, read_storage, view]
  cases checkElement info element with
  | error error => rfl
  | ok _ =>
    rw [Checked.ok_bind, Checked.ok_bind]
    cases region.bytes info with
    | error error => rfl
    | ok data =>
      rw [Checked.ok_bind, Checked.ok_bind]
      cases castTo info element data with
      | error error => rfl
      | ok view => rfl

theorem any_ghostsValid (region : Region) (field : Nat) :
    (region.storage.buffer? field).any (·.ghostsValid) = region.ghostsValid field := by
  unfold ghostsValid
  cases hbuffer : region.buffer? field with
  | some buffer => exact congrArg (Option.any (·.ghostsValid)) hbuffer
  | none => exact congrArg (Option.any (·.ghostsValid)) hbuffer

/-- As many bytes are handed out as the elements of the field take. -/
theorem Whole.length_stored (h : region.Whole) (hadmits : region.Admits info) :
    (region.stored info).length = region.length * info.typeSize := by
  unfold stored
  cases hbuffer : region.buffer? info.field with
  | some buffer =>
    rw [← hadmits.typeSize_eq buffer hbuffer]
    exact h info.field buffer hbuffer
  | none => exact List.length_replicate

theorem failsWith_castTo (info : FieldInfo) (element : ElementType) (data : Bytes) :
    Checked.FailsWith (∃ violation, · = .invariant violation) (castTo info element data) := by
  unfold castTo
  split
  · exact .error ⟨_, rfl⟩
  · split
    · exact .ok _ _
    · exact .error ⟨_, rfl⟩

theorem bytes_of_castTo {element : ElementType} {view : View} (h : castTo info element data = .ok view) :
    view.bytes = data := by
  unfold castTo at h
  split at h
  · cases h
  · split at h <;> cases h
    rfl

/-- The bytes of a field are viewed once it has its buffer. -/
theorem ensureView_over {element : ElementType} (hadmits : region.Admits info)
    (helement : checkElement info element = .ok ()) (transport : Transport) (history : History) :
    ∃ logs : List LogRecord, (ensureView info element).Ends transport history region (logs.map .logged)
      ((castTo info element (region.stored info)).mapError .reported) (region.ensured info) := by
  obtain ⟨logs, hensure⟩ := ensure_over hadmits.allocate_eq_ok transport history
  refine ⟨logs, (CommState.Ends.of_error helement).bind_silent (hensure.then_silent
    (CommState.Ends.get.bind_silent ?_))⟩
  refine (CommState.Ends.of_error (bytes_ensured hadmits.space_eq)).bind_silent ?_
  cases hcast : castTo info element (region.stored info) with
  | error error => exact .of_reported rfl
  | ok view => exact .of_error rfl

/-- Bytes that are put back change nothing. -/
theorem edited_keep (region : Region) (info : FieldInfo) :
    region.edited info .keep = region.ensured info := by
  have hbuffer := buffer?_ensured region info info.field
  rw [if_pos rfl] at hbuffer
  have hstored : region.stored info =
      ((region.buffer? info.field).getD (region.freshBuffer info)).bytes := by
    unfold stored
    cases region.buffer? info.field <;> rfl
  rw [edited, setBytes, hbuffer, hstored]
  exact setBuffer_self hbuffer

/-- What a call comes to, and the region that it leaves. -/
def ending (region : Region) (call : Call) : Except Failure Answer × Region :=
  let outcome := (region.storage.answer call).mapError .reported
  (outcome, region.after call outcome)

/-- The errors of a call that is turned away before it reaches the buffer of a field. -/
def turnsAway : MeshError → Bool
  | .fieldSpaceMismatch .. | .fieldTypeSize .. | .fieldUnallocated .. => true
  | _ => false

theorem failsWith_checkElement (info : FieldInfo) (element : ElementType) :
    Checked.FailsWith (turnsAway · = true) (checkElement info element) := by
  unfold checkElement
  split
  · exact .ok _ ()
  · exact .error rfl

theorem failsWith_grant (s : Storage) (info : FieldInfo) :
    Checked.FailsWith (turnsAway · = true) (s.grant info) := by
  unfold Storage.grant
  split
  · split
    · split
      · exact .ok _ _
      · exact .error rfl
    · exact .ok _ _
  · exact .error rfl

theorem after_of_turnsAway {error : MeshError} (herror : turnsAway error = true) (element : ElementType)
    (edit : Edit) : region.after (.viewMut info element edit) (.error (.reported error)) = region := by
  cases error with
  | invariant => cases herror
  | _ => rfl

/-- The call ends as the map says, and reaches the buffer that the answer tells. -/
def Answers (region : Region) (call : Call) (transport : Transport) (h : History) : Prop :=
  ∃ es, call.perform.Ends transport h region es (region.ending call).1 (region.ending call).2

theorem Answers.of_answer {call : Call} {answer : Except MeshError Answer}
    (hanswer : region.storage.answer call = answer) (es : List Event)
    (hends : call.perform.Ends transport h region es (answer.mapError .reported)
      (region.after call (answer.mapError .reported))) : region.Answers call transport h := by
  subst hanswer
  exact ⟨es, hends⟩

theorem answers_bytesMut (hroom : region.HasRoom info) (edit : Edit) :
    region.Answers (.bytesMut info edit) transport h := by
  cases hgrant : region.storage.grant info with
  | error error =>
    have hanswer : region.storage.answer (.bytesMut info edit) = .error error := by
      rw [Storage.answer, hgrant]
      rfl
    exact .of_answer hanswer _ ((ensure_of_grant_error hgrant hroom).fail _)
  | ok data =>
    obtain ⟨hadmits, rfl⟩ := admits_of_grant hgrant hroom
    obtain ⟨logs, hensure⟩ := ensure_over hadmits.allocate_eq_ok transport h
    have hanswer : region.storage.answer (.bytesMut info edit) = .ok (.bytes (region.stored info)) := by
      rw [Storage.answer, hgrant]
      rfl
    exact .of_answer hanswer _ (hensure.then_silent (CommState.Ends.get.bind_silent
      ((CommState.Ends.of_error (bytes_ensured hadmits.space_eq)).bind_silent
        ((CommState.Ends.update _).bind_silent (.pure _)))))

section
variable {element : ElementType} {edit : Edit}

theorem answers_viewMut_of_turnsAway {error : MeshError} (herror : turnsAway error = true)
    (hanswer : region.storage.answer (.viewMut info element edit) = .error error) {es : List Event}
    (hview : (ensureView info element).Ends transport h region es (.error (.reported error)) region) :
    region.Answers (.viewMut info element edit) transport h := by
  refine .of_answer hanswer es ?_
  rw [Except.mapError, after_of_turnsAway herror]
  exact hview.fail _

/-- A view of a field that has its buffer, or is given it, fails only by the cast, and then nothing is
written. -/
theorem answers_viewMut_of_admits (hadmits : region.Admits info)
    (helement : checkElement info element = .ok ())
    (hanswer : region.storage.answer (.viewMut info element edit) =
      (castTo info element (region.stored info)).map .view) :
    region.Answers (.viewMut info element edit) transport h := by
  obtain ⟨logs, hview⟩ := ensureView_over hadmits helement transport h
  cases hcast : castTo info element (region.stored info) with
  | error error =>
    obtain ⟨violation, rfl⟩ := failsWith_castTo info element _ error hcast
    rw [hcast] at hview hanswer
    have hafter : region.after (.viewMut info element edit)
        (.error (.reported (.invariant violation))) = region.ensured info := edited_keep region info
    exact .of_answer hanswer _ (hafter ▸ hview.fail _)
  | ok view =>
    rw [hcast] at hview hanswer
    have hbytes : view.bytes = region.stored info := bytes_of_castTo hcast
    have hafter : region.after (.viewMut info element edit) (.ok (.view view)) =
        (region.ensured info).setBytes info.field (edit.apply view.bytes) := hbytes ▸ rfl
    refine .of_answer hanswer (logs.map .logged) ?_
    rw [Except.map, Except.mapError, hafter]
    exact hview.then_silent ((CommState.Ends.update _).bind_silent (.pure _))

theorem answers_viewMut (hroom : region.HasRoom info) :
    region.Answers (.viewMut info element edit) transport h := by
  cases helement : checkElement info element with
  | error error =>
    refine answers_viewMut_of_turnsAway (failsWith_checkElement info element error helement) ?_
      ((CommState.Ends.of_reported helement).fail _)
    rw [Storage.answer, helement]
    rfl
  | ok _ =>
    have hanswer : region.storage.answer (.viewMut info element edit) =
        (region.storage.grant info).bind fun data => (castTo info element data).map .view := by
      rw [Storage.answer, helement]
      rfl
    cases hgrant : region.storage.grant info with
    | error error =>
      rw [hgrant] at hanswer
      exact answers_viewMut_of_turnsAway (failsWith_grant _ info error hgrant) hanswer
        ((CommState.Ends.of_error helement).bind_silent
          ((ensure_of_grant_error hgrant hroom).fail _))
    | ok data =>
      obtain ⟨hadmits, rfl⟩ := admits_of_grant hgrant hroom
      rw [hgrant] at hanswer
      exact answers_viewMut_of_admits hadmits helement hanswer

end

theorem answers_bytes (info : FieldInfo) : region.Answers (.bytes info) transport h := by
  have hanswer : region.storage.answer (.bytes info) = (region.bytes info).map .bytes := by
    rw [Storage.answer, read_storage]
    rfl
  cases hbytes : region.bytes info with
  | error error =>
    rw [hbytes] at hanswer
    exact .of_answer hanswer _ (CommState.Ends.get.bind_silent ((CommState.Ends.of_reported hbytes).fail _))
  | ok data =>
    rw [hbytes] at hanswer
    exact .of_answer hanswer _
      (CommState.Ends.get.bind_silent ((CommState.Ends.of_error hbytes).bind_silent (.pure _)))

theorem answers_view (info : FieldInfo) (element : ElementType) :
    region.Answers (.view info element) transport h := by
  have hanswer := answer_view region info element
  cases hview : region.view info element with
  | error error =>
    rw [hview] at hanswer
    exact .of_answer hanswer _ (CommState.Ends.get.bind_silent ((CommState.Ends.of_reported hview).fail _))
  | ok view =>
    rw [hview] at hanswer
    exact .of_answer hanswer _
      (CommState.Ends.get.bind_silent ((CommState.Ends.of_error hview).bind_silent (.pure _)))

theorem answers_ghostsValid (field : Nat) : region.Answers (.ghostsValid field) transport h := by
  have hanswer : region.storage.answer (.ghostsValid field) = .ok (.flag (region.ghostsValid field)) := by
    rw [Storage.answer, any_ghostsValid]
    rfl
  exact .of_answer hanswer _ (CommState.Ends.get.bind_silent (.pure _))

/-- A call is answered as the map says, and reaches the buffer that the answer tells. -/
theorem runOver_perform (call : Call) (hroom : call.HasRoom region.length) (transport : Transport)
    (history : History) :
    ((call.perform.run.run region).runOver transport history).1 = region.ending call := by
  have hanswers : region.Answers call transport history := by
    cases call with
    | bytesMut info edit => exact answers_bytesMut (hroom info edit rfl) edit
    | viewMut info element edit => exact answers_viewMut (hroom info edit rfl)
    | bytes info => exact answers_bytes info
    | view info element => exact answers_view info element
    | setGhostsValid field valid => exact ⟨_, (CommState.Ends.update _).bind_silent (.pure _)⟩
    | ghostsValid field => exact answers_ghostsValid field
  obtain ⟨es, hends⟩ := hanswers
  rw [hends]

/-- Put bytes over those from an offset on, as far as all of them fit. -/
def Edit.overwrite (start : Nat) (new : Bytes) : Edit where
  apply data := if start + new.length ≤ data.length then data.overwrite start new else data
  length_apply data := by
    split
    · exact Bytes.length_overwrite ‹_›
    · rfl

/-- Overwriting bytes of a field is a call that asks for its bytes and changes them so. -/
theorem writeBytes_over {start : Nat} {new : Bytes} (h : region.Whole) (hadmits : region.Admits info)
    (hfits : start + new.length ≤ (region.stored info).length) (transport : Transport) (history : History) :
    ∃ logs : List LogRecord, (writeBytes info start new).Ends transport history region (logs.map .logged)
      (.ok ((region.stored info).overwrite start new))
      (region.edited info (.overwrite start new)) := by
  obtain ⟨logs, hensure⟩ := ensure_over hadmits.allocate_eq_ok transport history
  have hlimit : start + new.length < Word.limit :=
    Word.lt_limit_of_le (Nat.le_trans hfits (h.length_stored hadmits ▸ hadmits.room.le))
  have hslice : ∃ part, (region.stored info).slice start (start + new.length) = .ok part :=
    ⟨_, Bytes.slice_eq_ok_iff.mpr (if_pos hfits)⟩
  obtain ⟨part, hslice⟩ := hslice
  have hafter : region.edited info (.overwrite start new) =
      (region.ensured info).setBytes info.field ((region.stored info).overwrite start new) :=
    congrArg ((region.ensured info).setBytes info.field) (if_pos hfits)
  rw [hafter]
  exact ⟨logs, hensure.then_silent (CommState.Ends.get.bind_silent
    ((CommState.Ends.of_error (bytes_ensured hadmits.space_eq)).bind_silent
      ((CommState.Ends.of_fault (Word.add_of_lt hlimit)).bind_silent
        ((CommState.Ends.of_fault hslice).bind_silent
          ((CommState.Ends.update _).bind_silent (.pure _))))))⟩

/-! ## Accounts -/

/-- What a call does to the buffer of a field, if it reaches it: the size of the elements, and the
change. -/
def access? (field : Nat) (attempt : Attempt Call Answer) : Option (Nat × Edit) :=
  match reached? attempt.operation attempt.outcome with
  | some (info, edit) => if info.field = field then some (info.typeSize, edit) else none
  | none => none

/-- The value that a call sets the flag of a field to. -/
def flagSet? (field : Nat) (attempt : Attempt Call Answer) : Option Bool :=
  match attempt.operation with
  | .setGhostsValid other valid => if other = field then some valid else none
  | _ => none

/-- What was done to the buffer of a field, in order. -/
def accesses (field : Nat) (attempts : List (Attempt Call Answer)) : List (Nat × Edit) :=
  attempts.filterMap (access? field)

/-- The values that the flag of a field was set to since its buffer was reached for the first time. -/
def flags (field : Nat) (attempts : List (Attempt Call Answer)) : List Bool :=
  (attempts.dropWhile fun attempt => (access? field attempt).isNone).filterMap (flagSet? field)

/-- The buffer of a field as the calls give account of it. -/
def account? (length : Nat) (attempts : List (Attempt Call Answer)) (field : Nat) : Option FieldBuffer :=
  (accesses field attempts).head?.map fun (typeSize, _) =>
    { bytes := (accesses field attempts).foldl (fun data (_, edit) => edit.apply data)
        (.zeros (length * typeSize))
      typeSize
      ghostsValid := (flags field attempts).getLastD false }

/-- The buffer of a field after one more call. -/
def recorded (length : Nat) (attempt : Attempt Call Answer) (field : Nat) (buffer? : Option FieldBuffer) :
    Option FieldBuffer :=
  match access? field attempt with
  | some (typeSize, edit) =>
    let buffer := buffer?.getD ⟨.zeros (length * typeSize), typeSize, false⟩
    some { buffer with bytes := edit.apply buffer.bytes }
  | none =>
    match flagSet? field attempt with
    | some valid => buffer?.map fun buffer => { buffer with ghostsValid := valid }
    | none => buffer?

section
variable {length field : Nat} {attempts : List (Attempt Call Answer)} {attempt : Attempt Call Answer}

theorem length_foldl_edits (edits : List (Nat × Edit)) (data : Bytes) :
    (edits.foldl (fun data (_, edit) => edit.apply data) data).length = data.length := by
  induction edits generalizing data with
  | nil => rfl
  | cons edit edits ih => exact (ih _).trans (edit.2.length_apply data)

theorem length_of_account? {buffer : FieldBuffer} (h : account? length attempts field = some buffer) :
    buffer.bytes.length = length * buffer.typeSize := by
  obtain ⟨first, -, rfl⟩ := Option.map_eq_some_iff.mp h
  exact (length_foldl_edits _ _).trans List.length_replicate

/-- A call that reaches the buffer of a field sets no flag. -/
theorem flagSet?_of_access? {access : Nat × Edit} (h : access? field attempt = some access) :
    flagSet? field attempt = none := by
  obtain ⟨call, outcome⟩ := attempt
  cases call with
  | setGhostsValid other valid =>
    cases outcome <;> cases h
  | _ => rfl

/-- The flags of a field are counted from the first time on that its buffer is reached. -/
theorem flags_concat (attempts : List (Attempt Call Answer)) (attempt : Attempt Call Answer) :
    flags field (attempts ++ [attempt]) =
      if accesses field attempts = [] then [] else flags field attempts ++ (flagSet? field attempt).toList := by
  have hempty : (attempts.dropWhile fun attempt => (access? field attempt).isNone).isEmpty ↔
      accesses field attempts = [] := by
    rw [List.isEmpty_iff, List.dropWhile_eq_nil_iff, accesses, List.filterMap_eq_nil_iff]
    simp only [Option.isNone_iff_eq_none]
  rw [flags, List.dropWhile_append]
  by_cases hnone : accesses field attempts = []
  · rw [if_pos hnone, if_pos (hempty.mpr hnone)]
    cases haccess : access? field attempt with
    | none => simp [haccess]
    | some access => simp [haccess, flagSet?_of_access? haccess]
  · rw [if_neg hnone, if_neg (mt hempty.mp hnone), List.filterMap_append]
    cases hflag : flagSet? field attempt <;> simp [hflag, flags]

/-- The account of a field after one more call. -/
theorem account?_concat (length : Nat) (attempts : List (Attempt Call Answer)) (attempt : Attempt Call Answer) :
    account? length (attempts ++ [attempt]) field =
      recorded length attempt field (account? length attempts field) := by
  have hhanded : accesses field (attempts ++ [attempt]) =
      accesses field attempts ++ (access? field attempt).toList := by
    rw [accesses, List.filterMap_append]
    cases haccess : access? field attempt <;> simp [haccess, accesses]
  rw [account?, account?, recorded, hhanded, flags_concat]
  cases haccess : access? field attempt with
  | none =>
    cases hpast : accesses field attempts with
    | nil => cases flagSet? field attempt <;> rfl
    | cons first rest =>
      cases hflag : flagSet? field attempt <;> simp
  | some access =>
    rw [flagSet?_of_access? haccess]
    cases hpast : accesses field attempts with
    | nil => rfl
    | cons first rest => simp

end

/-! ## Calls one after the other -/

section
variable {space color length : Nat} {calls : List Call} {attempts : List (Attempt Call Answer)}

/-- A call that is not for a flag changes what it reaches. -/
theorem buffer?_elim_reached? (region : Region) (call : Call) (outcome : Except Failure Answer)
    {field : Nat} (hflag : flagSet? field ⟨call, outcome⟩ = none) :
    ((reached? call outcome).elim region fun (info, edit) => region.edited info edit).buffer? field =
      recorded region.length ⟨call, outcome⟩ field (region.buffer? field) := by
  rw [recorded, access?, hflag]
  cases reached? call outcome with
  | none => rfl
  | some reached =>
    obtain ⟨info, edit⟩ := reached
    change ((region.ensured info).setBytes info.field _).buffer? field = _
    rw [buffer?_setBytes, buffer?_ensured]
    by_cases hfield : field = info.field
    · subst hfield
      simp only [if_true, Option.map_some, stored, freshBuffer]
    · simp only [if_neg hfield, if_neg (Ne.symm hfield)]

/-- What a call does to each field is what it is recorded with. -/
theorem buffer?_after (region : Region) (call : Call) (outcome : Except Failure Answer) (field : Nat) :
    (region.after call outcome).buffer? field =
      recorded region.length ⟨call, outcome⟩ field (region.buffer? field) := by
  cases call with
  | setGhostsValid other valid =>
    refine (buffer?_setGhostsValid region other field valid).trans ?_
    have hreached : access? field ⟨.setGhostsValid other valid, outcome⟩ = none := rfl
    rw [recorded, hreached, flagSet?]
    by_cases hfield : field = other
    · subst hfield
      simp only [if_true]
    · simp only [if_neg hfield, if_neg (Ne.symm hfield)]
  | _ => exact buffer?_elim_reached? region _ outcome rfl

theorem sameShape_after (region : Region) (call : Call) (outcome : Except Failure Answer) :
    region.SameShape (region.after call outcome) := by
  have hreached : ∀ reached : Option (FieldInfo × Edit), region.SameShape
      (reached.elim region fun (info, edit) => region.edited info edit) := by
    rintro (_ | ⟨info, edit⟩)
    · exact .refl region
    · exact (sameShape_ensured region info).trans (sameShape_setBytes ..)
  cases call with
  | setGhostsValid field valid => exact sameShape_setGhostsValid region field valid
  | bytesMut info edit => exact hreached (reached? (.bytesMut info edit) outcome)
  | viewMut info element edit => exact hreached (reached? (.viewMut info element edit) outcome)
  | bytes | view | ghostsValid => exact .refl region

/-- The region as the calls so far give account of it. -/
def Storage.told (space length : Nat) (attempts : List (Attempt Call Answer)) : Storage :=
  ⟨space, length, account? length attempts⟩

/-- What a call comes to if these were made before it. -/
def Told (space length : Nat) (past : List (Attempt Call Answer)) (attempt : Attempt Call Answer) : Prop :=
  attempt.outcome = ((Storage.told space length past).answer attempt.operation).mapError .reported

/-- The region is as the calls give account of it, and so were all answers. -/
structure Kept (space color length : Nat) (attempts : List (Attempt Call Answer)) (region : Region) :
    Prop where
  shape : (new space color length).SameShape region
  buffer?_eq : region.buffer? = account? length attempts
  told : Attempt.Each (Told space length) attempts

theorem Kept.storage_eq (h : Kept space color length attempts region) :
    region.storage = .told space length attempts := by
  rw [storage, h.shape.indexSpace_eq, h.shape.length_eq, h.buffer?_eq]
  rfl

theorem Kept.whole (h : Kept space color length attempts region) : region.Whole := by
  intro field buffer hbuffer
  rw [h.buffer?_eq] at hbuffer
  rw [h.shape.length_eq]
  exact length_of_account? hbuffer

theorem Kept.told_ending (h : Kept space color length attempts region) (call : Call) :
    Told space length attempts ⟨call, (region.ending call).1⟩ := by
  rw [Told, ← h.storage_eq]
  rfl

/-- One more call. -/
theorem Kept.step (h : Kept space color length attempts region) (call : Call) :
    Kept space color length (attempts ++ [⟨call, (region.ending call).1⟩]) (region.ending call).2 where
  shape := h.shape.trans (sameShape_after region call _)
  buffer?_eq := by
    funext field
    rw [ending, buffer?_after, account?_concat, h.buffer?_eq, h.shape.length_eq]
    rfl
  told := h.told.concat (h.told_ending call)

/-- What a call leaves as it is. -/
structure Framed (region : Region) (call : Call) (outcome : Except Failure Answer) (region' : Region) :
    Prop where
  /-- A call that is turned away changes nothing. -/
  of_turnsAway : ∀ error, outcome = .error (.reported error) → turnsAway error = true → region' = region
  /-- A call that fails otherwise changes no more than that the field has its buffer. -/
  of_failure : ∀ failure, outcome = .error failure → region' = region ∨ ∃ info element edit violation,
    call = .viewMut info element edit ∧ failure = .reported (.invariant violation) ∧
      region' = region.ensured info
  /-- A call that only reads changes nothing, and so allocates nothing. -/
  of_read : call.changes = false → region' = region
  /-- Other fields are not affected. -/
  of_field_ne : ∀ field, field ≠ call.field → region'.buffer? field = region.buffer? field

/-- A call reaches the buffer of no other field than its own. -/
theorem field_of_reached? {call : Call} {outcome : Except Failure Answer} {edit : Edit}
    (h : reached? call outcome = some (info, edit)) : info.field = call.field := by
  unfold reached? at h
  cases call with
  | bytesMut other change =>
    cases outcome with
    | ok answer =>
      cases h
      rfl
    | error failure => cases h
  | viewMut other element change =>
    simp only at h
    split at h
    · cases h
      rfl
    · cases h
      rfl
    · cases h
  | _ => cases h

theorem recorded_of_field_ne {call : Call} {field : Nat} (hfield : field ≠ call.field) (length : Nat)
    (outcome : Except Failure Answer) (buffer? : Option FieldBuffer) :
    recorded length ⟨call, outcome⟩ field buffer? = buffer? := by
  have hflag : flagSet? field ⟨call, outcome⟩ = none := by
    cases call with
    | setGhostsValid other valid => exact if_neg (Ne.symm hfield)
    | _ => rfl
  rw [recorded, access?, hflag]
  cases hreached : reached? call outcome with
  | some reached =>
    have hne : ¬ reached.1.field = field := field_of_reached? hreached ▸ Ne.symm hfield
    simp only [if_neg hne]
  | none => rfl

/-- A call for a view that fails is turned away, or the bytes cannot be viewed as was asked. -/
theorem failsWith_answer_viewMut (s : Storage) (info : FieldInfo) (element : ElementType) (edit : Edit) :
    Checked.FailsWith (fun error => turnsAway error = true ∨ ∃ violation, error = .invariant violation)
      (s.answer (.viewMut info element edit)) :=
  ((failsWith_checkElement info element).mono fun _ => .inl).bind fun _ =>
    ((failsWith_grant s info).mono fun _ => .inl).bind fun data =>
      ((failsWith_castTo info element data).mono fun _ => .inr).bind fun _ => .ok _ _

theorem framed_ending (region : Region) (call : Call) :
    Framed region call (region.ending call).1 (region.ending call).2 where
  of_turnsAway error hfailed herror := by
    have hending : (region.ending call).2 = region.after call (region.ending call).1 := rfl
    rw [hending, hfailed]
    cases call with
    | viewMut info element edit => exact after_of_turnsAway herror element edit
    | setGhostsValid => cases hfailed
    | bytesMut | bytes | view | ghostsValid => rfl
  of_failure failure hfailed := by
    have hending : (region.ending call).2 = region.after call (region.ending call).1 := rfl
    rw [hending, hfailed]
    cases call with
    | viewMut info element edit =>
      obtain ⟨error, hanswer, rfl⟩ := Checked.mapError_eq_error_iff.mp hfailed
      rcases failsWith_answer_viewMut _ info element edit error hanswer with herror | ⟨violation, rfl⟩
      · exact .inl (after_of_turnsAway herror element edit)
      · exact .inr ⟨info, element, edit, violation, rfl, rfl, edited_keep region info⟩
    | setGhostsValid => cases hfailed
    | bytesMut | bytes | view | ghostsValid => exact .inl rfl
  of_read hread := by
    cases call with
    | bytes | view | ghostsValid => rfl
    | bytesMut | viewMut | setGhostsValid => cases hread
  of_field_ne field hfield := (buffer?_after region call _ field).trans (recorded_of_field_ne hfield _ _ _)

/-- What calls on a new region come to, and the region that they leave. -/
def operated (space color length : Nat) (calls : List Call) (transport : Transport) (h : History) :
    List (Attempt Call Answer) × Region :=
  ((CommState.attemptAll Call.perform calls (new space color length)).runOver transport h).1

theorem kept_operated (space color : Nat) (hroom : ∀ call ∈ calls, call.HasRoom length)
    (transport : Transport) (h : History) :
    (operated space color length calls transport h).1.map (·.operation) = calls ∧
      Kept space color length (operated space color length calls transport h).1
        (operated space color length calls transport h).2 := by
  have hstart : Kept space color length [] (new space color length) :=
    ⟨.refl _, rfl, .nil⟩
  have hstep : ∀ attempts region (call : Call), call.HasRoom length →
      Kept space color length attempts region → CommState.Always (· = region) call.perform
        fun outcome region' => Kept space color length (attempts ++ [⟨call, outcome⟩]) region' := by
    rintro attempts region call hroom hkept transport history _ rfl
    rw [runOver_perform call (hkept.shape.length_eq ▸ hroom)]
    exact hkept.step call
  exact CommState.attemptAll_keeps hstep calls hroom hstart transport h

/-- A region after calls on a new one. -/
structure Refines (space color length : Nat) (calls : List Call) (attempts : List (Attempt Call Answer))
    (region : Region) : Prop where
  /-- All calls are made, whichever of them fail. -/
  operations_eq : attempts.map (·.operation) = calls
  shape : (new space color length).SameShape region
  /-- Exactly the fields whose buffer was reached have one. Its elements have the size that was asked for
  first, it holds zeros with all that was written through its own bytes over them, and its flag
  is down unless it was set since, where the last value counts. -/
  buffer?_eq : ∀ field, region.buffer? field = account? length attempts field
  length_eq : ∀ field buffer, region.buffer? field = some buffer →
    buffer.bytes.length = length * buffer.typeSize
  /-- Every call was answered as the ones before it give account of the region. -/
  told : Attempt.Each (Told space length) attempts
  /-- So is the next call over any transport, and it changes no more than it has to. -/
  next : ∀ call : Call, call.HasRoom length → ∀ transport h, ∃ outcome region',
    ((call.perform.run.run region).runOver transport h).1 = (outcome, region') ∧
      Told space length attempts ⟨call, outcome⟩ ∧ Framed region call outcome region'

/-- A region is a map from fields to bytes. Whatever calls are made on a new region, with descriptors
that fit together or not, as long as the buffers that they ask for can be allocated: each field holds what
the calls give account of, and each call is answered accordingly. -/
theorem refines_operated (hroom : ∀ call ∈ calls, call.HasRoom length) (transport : Transport)
    (h : History) : Refines space color length calls (operated space color length calls transport h).1
      (operated space color length calls transport h).2 := by
  obtain ⟨hoperations, hkept⟩ := kept_operated space color hroom transport h
  exact {
    operations_eq := hoperations
    shape := hkept.shape
    buffer?_eq := fun field => congrFun hkept.buffer?_eq field
    length_eq := fun field buffer hbuffer =>
      (hkept.whole field buffer hbuffer).trans (congrArg (· * _) hkept.shape.length_eq)
    told := hkept.told
    next := fun call hroom transport' h' =>
      ⟨_, _, runOver_perform call (hkept.shape.length_eq ▸ hroom) transport' h',
        hkept.told_ending call, framed_ending _ call⟩ }

/-- A flag that is set too early, two changes of a field, one that asks for other elements, and a view that
the alignment of its elements rules out. -/
theorem refines_operated_two_elements :
    let increment : Edit := ⟨fun data => data.map (· + 1), fun _ => List.length_map _⟩
    let calls : List Call := [.setGhostsValid 0 true, .bytesMut ⟨0, 0, 1⟩ increment,
      .viewMut ⟨0, 0, 2⟩ ⟨2, true⟩ increment, .setGhostsValid 0 true, .bytesMut ⟨0, 0, 1⟩ increment,
      .viewMut ⟨1, 0, 32⟩ ⟨32, false⟩ increment]
    let result := operated 0 0 2 calls (.ofInbox []) []
    (∀ call ∈ calls, call.HasRoom 2) ∧ Refines 0 0 2 calls result.1 result.2 ∧
      result.2.buffer? 0 = some ⟨[2, 2], 1, true⟩ ∧
      result.2.buffer? 1 = some ⟨Bytes.zeros 64, 32, false⟩ := by
  intro increment calls result
  have hroom : ∀ call ∈ calls, call.HasRoom 2 := by
    simp [calls, Call.HasRoom, Call.handsOut?, chunked, chunkCount, Word.bufferLimit]
  exact ⟨hroom, refines_operated hroom (.ofInbox []) [], by decide +kernel, by decide +kernel⟩

end

end Region

end HaloMesh
