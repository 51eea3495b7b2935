-- SUMMARY: What a field of a region holds, before and after its buffer is allocated and written.
import HaloMesh.Logged
import HaloMesh.Proofs.Bytes
import HaloMesh.Proofs.Checked
import HaloMesh.Proofs.Comm.Replies
import HaloMesh.Proofs.Comm.Stateful

/-!
# Contents of fields

A field without a buffer counts as holding zeros, which is what it holds once a buffer is allocated.
So allocation does not change the contents of a field.
-/

namespace HaloMesh

namespace Region

/-! ## Chunks -/

theorem le_chunked (n : Nat) : n ≤ chunked n := by
  unfold chunked chunkCount
  omega

theorem flatten_zeros (count : Nat) :
    (List.replicate count (Bytes.zeros 16)).flatten = Bytes.zeros (count * 16) :=
  List.flatten_replicate_replicate

/-- All that can be seen of the chunks of a new buffer is zero. -/
theorem zeroBuffer_eq_ok {n typeSize : Nat} (h : chunked n ≤ Word.bufferLimit) :
    zeroBuffer n typeSize = .ok ⟨Bytes.zeros n, typeSize, false⟩ := by
  have htake : (Bytes.zeros (chunkCount n * 16)).take n = Bytes.zeros n := by
    rw [Bytes.zeros, List.take_replicate, Bytes.zeros]
    exact congrArg (List.replicate · 0) (Nat.min_eq_left (le_chunked n))
  rw [zeroBuffer, Word.reserve_eq_ok_iff.mpr h, flatten_zeros, htake]
  rfl

/-- Bytes with what is behind them in their last chunk, which is never written. -/
def padded (data : Bytes) : Bytes := data ++ Bytes.zeros (chunked data.length - data.length)

/-- The chunks that bytes are stored in. -/
def chunks (data : Bytes) : List Bytes :=
  (List.range (chunkCount data.length)).map (Bytes.element 16 (padded data))

theorem length_padded (data : Bytes) : (padded data).length = chunkCount data.length * 16 := by
  rw [padded, List.length_append, Bytes.zeros, List.length_replicate,
    Nat.add_sub_cancel' (le_chunked _)]
  rfl

theorem length_of_mem_chunks {data chunk : Bytes} (h : chunk ∈ chunks data) : chunk.length = 16 := by
  obtain ⟨i, hi, rfl⟩ := List.mem_map.mp h
  exact Bytes.length_element (length_padded data) (List.mem_range.mp hi)

/-- What can be seen of the chunks are the bytes. -/
theorem take_flatten_chunks (data : Bytes) : (chunks data).flatten.take data.length = data := by
  have hall := Bytes.take_drop_elements 16 (padded data) 0 (chunkCount data.length)
  simp only [Nat.zero_mul, List.drop_zero, Nat.zero_add] at hall
  rw [chunks, ← List.flatMap_def, ← hall, List.take_take,
    Nat.min_eq_left (show data.length ≤ chunkCount data.length * 16 from le_chunked _), padded,
    List.take_left' rfl]

/-- A new buffer is stored in zeroed chunks. -/
theorem chunks_zeros (n : Nat) :
    chunks (Bytes.zeros n) = List.replicate (chunkCount n) (Bytes.zeros 16) := by
  have hlength : (Bytes.zeros n).length = n := List.length_replicate
  have hpadded : padded (Bytes.zeros n) = Bytes.zeros (chunkCount n * 16) := by
    rw [padded, hlength, Bytes.zeros, Bytes.zeros, List.replicate_append_replicate,
      Nat.add_sub_cancel' (le_chunked n)]
    rfl
  rw [chunks, hlength, hpadded]
  refine List.eq_replicate_iff.mpr ⟨by rw [List.length_map, List.length_range], fun chunk hchunk => ?_⟩
  obtain ⟨i, hi, rfl⟩ := List.mem_map.mp hchunk
  have hstop : (i + 1) * 16 ≤ chunkCount n * 16 := Nat.mul_le_mul_right 16 (List.mem_range.mp hi)
  have hroom : min 16 (chunkCount n * 16 - i * 16) = 16 := by omega
  rw [Bytes.element, Bytes.zeros, List.drop_replicate, List.take_replicate, hroom, Bytes.zeros]

/-! ## Contents -/

/-- A field of the region holds these bytes, or is to hold them when it gets its buffer. -/
structure Holds (region : Region) (info : FieldInfo) (data : Bytes) : Prop where
  space_eq : info.indexSpace = region.indexSpace
  length_eq : data.length = region.length * info.typeSize
  buffer : match region.buffer? info.field with
    | some buffer => buffer.typeSize = info.typeSize ∧ buffer.bytes = data
    | none => data = Bytes.zeros (region.length * info.typeSize)

/-- The buffer of a field can be allocated. -/
def HasRoom (region : Region) (info : FieldInfo) : Prop :=
  chunked (region.length * info.typeSize) ≤ Word.bufferLimit

variable {region : Region} {info : FieldInfo} {data data' : Bytes}

theorem HasRoom.le (h : region.HasRoom info) : region.length * info.typeSize ≤ Word.bufferLimit :=
  Nat.le_trans (le_chunked _) h

theorem checkSpace_eq_ok (h : info.indexSpace = region.indexSpace) : region.checkSpace info = .ok () :=
  if_pos h

theorem indexSpace_eq_of_checkSpace (h : region.checkSpace info = .ok ()) :
    info.indexSpace = region.indexSpace := by
  unfold checkSpace at h
  split at h
  · assumption
  · cases h

/-! ## Reading and writing -/

theorem Holds.bytes_eq_ok (h : region.Holds info data) (hallocated : region.isAllocated info.field) :
    region.bytes info = .ok data := by
  obtain ⟨buffer, hbuffer⟩ := Option.isSome_iff_exists.mp hallocated
  have hcontent := h.buffer
  rw [hbuffer] at hcontent
  rw [bytes, checkSpace_eq_ok h.space_eq, Checked.ok_bind, hbuffer]
  exact congrArg Except.ok hcontent.2

/-- Writing bytes of the same length. -/
theorem Holds.setBytes (h : region.Holds info data) (hallocated : region.isAllocated info.field)
    (hlength : data'.length = data.length) : (region.setBytes info.field data').Holds info data' ∧
      (region.setBytes info.field data').isAllocated info.field ∧
      (region.setBytes info.field data').color = region.color ∧
      (region.setBytes info.field data').length = region.length := by
  obtain ⟨buffer, hbuffer⟩ := Option.isSome_iff_exists.mp hallocated
  have hcontent := h.buffer
  rw [hbuffer] at hcontent
  have hset : region.setBytes info.field data' =
      region.setBuffer info.field { buffer with bytes := data' } := by
    rw [Region.setBytes, hbuffer]
  have hfind : (region.setBuffer info.field { buffer with bytes := data' }).buffer? info.field =
      some { buffer with bytes := data' } := by
    rw [buffer?_setBuffer, if_pos rfl]
  rw [hset]
  refine ⟨⟨h.space_eq, hlength.trans h.length_eq, ?_⟩, ?_, rfl, rfl⟩
  · rw [hfind]
    exact ⟨hcontent.1, rfl⟩
  · rw [isAllocated, hfind]
    rfl

/-! ## Allocation -/

/-- The region passes the checks that stand before a field gets its buffer. -/
structure Admits (region : Region) (info : FieldInfo) : Prop where
  space_eq : info.indexSpace = region.indexSpace
  typeSize_eq : ∀ buffer, region.buffer? info.field = some buffer → buffer.typeSize = info.typeSize
  room : region.HasRoom info

/-- The zeroed buffer of a field. -/
def freshBuffer (region : Region) (info : FieldInfo) : FieldBuffer :=
  ⟨Bytes.zeros (region.length * info.typeSize), info.typeSize, false⟩

/-- The region once a field has its buffer. -/
def ensured (region : Region) (info : FieldInfo) : Region :=
  match region.buffer? info.field with
  | some _ => region
  | none => region.setBuffer info.field (region.freshBuffer info)

theorem Admits.allocate_eq_ok (h : region.Admits info) :
    region.allocate info = .ok (region.ensured info) := by
  have hsize : Word.mul region.length info.typeSize = .ok (region.length * info.typeSize) :=
    Word.mul_of_le h.room.le
  rw [allocate, checkSpace_eq_ok h.space_eq, Checked.liftM_reported_ok, Checked.ok_bind, hsize,
    Checked.liftM_ok, Checked.ok_bind, ensured]
  cases hbuffer : region.buffer? info.field with
  | some buffer => exact if_pos (h.typeSize_eq buffer hbuffer)
  | none =>
    have hzero : zeroBuffer (region.length * info.typeSize) info.typeSize =
        .ok (region.freshBuffer info) := zeroBuffer_eq_ok h.room
    simp only [hzero]
    rfl

/-- A field is given a buffer unless it has one. -/
theorem Admits.ensure_yields (h : region.Admits info) (rank : Nat) :
    CommState.Yields rank (ensure info) region [] () (region.ensured info) := by
  refine (CommState.Yields.get rank region).bind_silent ?_
  have hset : CommState.Yields rank (do MonadStateOf.set (← liftM (region.allocate info)) :
      CommState Region PUnit) region [] ⟨⟩ (region.ensured info) :=
    (CommState.Yields.of_failure h.allocate_eq_ok rank region).bind_silent (.set rank region _)
  cases region.allocationText? info with
  | none => exact hset
  | some text =>
    exact (CommState.Yields.lift (Program.performs_record ..) region).bind_silent hset

/-- A field that may have a buffer gets it over any transport, of which nothing is asked. -/
theorem ensure_over {region' : Region} (hallocate : region.allocate info = .ok region')
    (transport : Transport) (history : History) :
    ∃ logs : List LogRecord, (ensure info).Ends transport history region (logs.map .logged)
      (.ok ()) region' := by
  have hset : ∀ history, (do MonadStateOf.set (← liftM (region.allocate info)) :
      CommState Region PUnit).Ends transport history region [] (.ok ⟨⟩) region' :=
    fun _ => (CommState.Ends.of_failure hallocate).bind_silent (.set _)
  cases htext : region.allocationText? info with
  | none =>
    refine ⟨[], CommState.Ends.get.bind_silent ?_⟩
    rw [htext]
    exact hset history
  | some text =>
    refine ⟨[⟨.trace, text⟩], CommState.Ends.get.bind_silent ?_⟩
    rw [htext]
    exact (CommState.Ends.record .trace text).then_silent (hset _)

/-! ## Rejections -/

theorem allocate_of_space_ne (hspace : info.indexSpace ≠ region.indexSpace) :
    region.allocate info =
        .error (.reported (.fieldSpaceMismatch info.field region.indexSpace info.indexSpace)) ∧
      region.allocationText? info = none := by
  have hcheck : region.checkSpace info =
      .error (.fieldSpaceMismatch info.field region.indexSpace info.indexSpace) := if_neg hspace
  constructor
  · rw [allocate, hcheck]
    rfl
  · rw [allocationText?, hcheck]

theorem allocate_of_typeSize_ne (hspace : info.indexSpace = region.indexSpace)
    (hroom : region.HasRoom info) {buffer : FieldBuffer} (hbuffer : region.buffer? info.field = some buffer)
    (hsize : buffer.typeSize ≠ info.typeSize) :
    region.allocate info =
        .error (.reported (.fieldTypeSize info.field buffer.typeSize info.typeSize)) ∧
      region.allocationText? info = none := by
  have hlength : Word.mul region.length info.typeSize = .ok (region.length * info.typeSize) :=
    Word.mul_of_le hroom.le
  constructor
  · rw [allocate, checkSpace_eq_ok hspace, Checked.liftM_reported_ok, Checked.ok_bind, hlength,
      Checked.liftM_ok, Checked.ok_bind]
    simp only [hbuffer, if_neg hsize]
    rfl
  · rw [allocationText?, checkSpace_eq_ok hspace, hlength, hbuffer]

/-- A field that gets no buffer leaves no trace. -/
theorem ensure_eq_done {failure : Failure} (hallocate : region.allocate info = .error failure)
    (htext : region.allocationText? info = none) :
    (ensure info).run.run region = .done (.error failure, region) := by
  have hget : (ensure info).run.run region = _ :=
    CommState.run_bind_of_done (show (MonadState.get : CommState Region Region).run.run region =
      .done (.ok region, region) from rfl) _
  rw [hget, htext, hallocate]
  rfl

/-! ## Buffers and sizes -/

theorem replace_self {field : Nat} {buffer : FieldBuffer} {buffers : List (Nat × FieldBuffer)}
    (h : buffers.find? (·.1 == field) = some (field, buffer)) : replace field buffer buffers = buffers := by
  induction buffers with
  | nil => cases h
  | cons entry rest ih =>
    obtain ⟨f, b⟩ := entry
    rw [List.find?_cons] at h
    by_cases hf : f = field
    · subst hf
      simp only [beq_self_eq_true, Option.some.injEq, Prod.mk.injEq, true_and] at h
      exact (if_pos rfl).trans (h ▸ rfl)
    · simp only [beq_eq_false_iff_ne.mpr hf] at h
      exact (if_neg hf).trans (congrArg _ (ih h))

/-- A field that is given the buffer that it has stays as it is. -/
theorem setBuffer_self {field : Nat} {buffer : FieldBuffer} (h : region.buffer? field = some buffer) :
    region.setBuffer field buffer = region := by
  obtain ⟨entry, hfind, rfl⟩ := Option.map_eq_some_iff.mp h
  have hfound := List.find?_some hfind
  obtain rfl : entry.1 = field := beq_iff_eq.mp hfound
  rw [setBuffer, replace_self hfind]

section
variable (region : Region) (info : FieldInfo) (field other : Nat) (data : Bytes) (valid : Bool)

theorem buffer?_ensured : (region.ensured info).buffer? other =
    if other = info.field then some ((region.buffer? other).getD (region.freshBuffer info))
    else region.buffer? other := by
  unfold ensured
  by_cases hother : other = info.field
  · subst hother
    cases hbuffer : region.buffer? info.field with
    | some buffer => simp [hbuffer]
    | none => simp [buffer?_setBuffer]
  · rw [if_neg hother]
    cases region.buffer? info.field with
    | some buffer => rfl
    | none => exact (buffer?_setBuffer ..).trans (if_neg hother)

theorem buffer?_setBytes : (region.setBytes field data).buffer? other =
    if other = field then (region.buffer? other).map fun buffer => { buffer with bytes := data }
    else region.buffer? other := by
  unfold setBytes
  by_cases hother : other = field
  · subst hother
    cases hbuffer : region.buffer? other with
    | some buffer => simp [buffer?_setBuffer]
    | none => simp [hbuffer]
  · rw [if_neg hother]
    cases region.buffer? field with
    | some buffer => exact (buffer?_setBuffer ..).trans (if_neg hother)
    | none => rfl

theorem buffer?_setGhostsValid : (region.setGhostsValid field valid).buffer? other =
    if other = field then
      (region.buffer? other).map fun buffer => { buffer with ghostsValid := valid }
    else region.buffer? other := by
  unfold setGhostsValid
  by_cases hother : other = field
  · subst hother
    cases hbuffer : region.buffer? other with
    | some buffer => simp [buffer?_setBuffer]
    | none => simp [hbuffer]
  · rw [if_neg hother]
    cases region.buffer? field with
    | some buffer => exact (buffer?_setBuffer ..).trans (if_neg hother)
    | none => rfl

end

/-- Two regions store the same part of the same index space. -/
structure SameShape (region region' : Region) : Prop where
  indexSpace_eq : region'.indexSpace = region.indexSpace
  color_eq : region'.color = region.color
  length_eq : region'.length = region.length

theorem SameShape.refl (region : Region) : region.SameShape region := ⟨rfl, rfl, rfl⟩

theorem SameShape.trans {a b c : Region} (h : a.SameShape b) (h' : b.SameShape c) : a.SameShape c :=
  ⟨h'.indexSpace_eq.trans h.indexSpace_eq, h'.color_eq.trans h.color_eq,
    h'.length_eq.trans h.length_eq⟩

theorem sameShape_ensured (region : Region) (info : FieldInfo) :
    region.SameShape (region.ensured info) := by
  unfold ensured
  cases region.buffer? info.field with
  | some buffer => exact .refl region
  | none => exact ⟨rfl, rfl, rfl⟩

theorem sameShape_setBytes (region : Region) (field : Nat) (data : Bytes) :
    region.SameShape (region.setBytes field data) := by
  unfold setBytes
  cases region.buffer? field with
  | some buffer => exact ⟨rfl, rfl, rfl⟩
  | none => exact .refl region

theorem sameShape_setGhostsValid (region : Region) (field : Nat) (valid : Bool) :
    region.SameShape (region.setGhostsValid field valid) := by
  unfold setGhostsValid
  cases region.buffer? field with
  | some buffer => exact ⟨rfl, rfl, rfl⟩
  | none => exact .refl region

theorem SameShape.hasRoom {region' : Region} (h : region.SameShape region') (hroom : region.HasRoom info) :
    region'.HasRoom info := by
  unfold HasRoom
  rwa [h.length_eq]

/-- Every buffer of the region holds elements of the size that a table gives for its field. -/
def Sized (sizes : Nat → Nat) (region : Region) : Prop :=
  ∀ field buffer, region.buffer? field = some buffer →
    buffer.typeSize = sizes field ∧ buffer.bytes.length = region.length * sizes field

variable {sizes : Nat → Nat}

theorem Sized.ensured (h : region.Sized sizes) (hsize : info.typeSize = sizes info.field) :
    (region.ensured info).Sized sizes := by
  intro field buffer hbuffer
  rw [(sameShape_ensured region info).length_eq]
  rw [buffer?_ensured] at hbuffer
  split at hbuffer
  · rename_i heq
    cases hold : region.buffer? field with
    | some old =>
      rw [hold] at hbuffer
      cases hbuffer
      exact h field old hold
    | none =>
      rw [hold] at hbuffer
      cases hbuffer
      rw [heq, ← hsize]
      exact ⟨rfl, List.length_replicate⟩
  · exact h field buffer hbuffer

theorem Sized.setBytes (h : region.Sized sizes) {field : Nat}
    (hlength : data.length = region.length * sizes field) :
    (region.setBytes field data).Sized sizes := by
  intro other buffer hbuffer
  rw [(sameShape_setBytes region field data).length_eq]
  rw [buffer?_setBytes] at hbuffer
  split at hbuffer
  · rename_i heq
    obtain ⟨old, hold, rfl⟩ := Option.map_eq_some_iff.mp hbuffer
    subst heq
    exact ⟨(h other old hold).1, hlength⟩
  · exact h other buffer hbuffer

theorem Sized.admits (h : region.Sized sizes) (hspace : info.indexSpace = region.indexSpace)
    (hsize : info.typeSize = sizes info.field) (hroom : region.HasRoom info) : region.Admits info :=
  ⟨hspace, fun buffer hbuffer => (h info.field buffer hbuffer).1.trans hsize.symm, hroom⟩

/-! ## Contents of an allocated field -/

theorem Holds.admits (h : region.Holds info data) (hroom : region.HasRoom info) :
    region.Admits info := by
  refine ⟨h.space_eq, fun buffer hbuffer => ?_, hroom⟩
  have hcontent := h.buffer
  rw [hbuffer] at hcontent
  exact hcontent.1

/-- A field that is given a buffer holds what it did. -/
theorem Holds.ensured (h : region.Holds info data) : (region.ensured info).Holds info data ∧
    (region.ensured info).isAllocated info.field := by
  have hfind := buffer?_ensured region info info.field
  rw [if_pos rfl] at hfind
  have hshape := sameShape_ensured region info
  refine ⟨⟨h.space_eq.trans hshape.indexSpace_eq.symm, h.length_eq.trans ?_, ?_⟩, ?_⟩
  · rw [hshape.length_eq]
  · have hcontent := h.buffer
    rw [hfind]
    cases hbuffer : region.buffer? info.field with
    | some buffer =>
      rw [hbuffer] at hcontent
      exact hcontent
    | none =>
      rw [hbuffer] at hcontent
      exact ⟨rfl, hcontent.symm⟩
  · rw [isAllocated, hfind]
    rfl

/-! ## Bytes of a field that may have no buffer yet -/

/-- The bytes of a field once it has its buffer. -/
def stored (region : Region) (info : FieldInfo) : Bytes :=
  ((region.buffer? info.field).getD (region.freshBuffer info)).bytes

theorem bytes_ensured (hspace : info.indexSpace = region.indexSpace) :
    (region.ensured info).bytes info = .ok (region.stored info) := by
  have hspace' : info.indexSpace = (region.ensured info).indexSpace :=
    hspace.trans (sameShape_ensured region info).indexSpace_eq.symm
  rw [bytes, checkSpace_eq_ok hspace', Checked.ok_bind, buffer?_ensured, if_pos rfl]
  rfl

theorem Sized.length_stored (h : region.Sized sizes) (hsize : info.typeSize = sizes info.field) :
    (region.stored info).length = region.length * info.typeSize := by
  unfold stored
  cases hbuffer : region.buffer? info.field with
  | some buffer => exact hsize ▸ (h info.field buffer hbuffer).2
  | none => exact List.length_replicate

theorem Sized.length_stored_of_admits (h : region.Sized sizes) (hadmits : region.Admits info) :
    (region.stored info).length = region.length * info.typeSize := by
  unfold stored
  cases hbuffer : region.buffer? info.field with
  | some buffer =>
    obtain ⟨hsize, hlength⟩ := h info.field buffer hbuffer
    rw [← hsize, hadmits.typeSize_eq buffer hbuffer] at hlength
    exact hlength
  | none => exact List.length_replicate

/-- A field that is given its buffer and then other bytes. -/
theorem bytes_setBytes_ensured (hspace : info.indexSpace = region.indexSpace) (data : Bytes) :
    ((region.ensured info).setBytes info.field data).bytes info = .ok data := by
  have hshape := (sameShape_ensured region info).trans (sameShape_setBytes _ info.field data)
  rw [bytes, checkSpace_eq_ok (hspace.trans hshape.indexSpace_eq.symm), Checked.ok_bind, buffer?_setBytes,
    if_pos rfl, buffer?_ensured, if_pos rfl]
  rfl

theorem Holds.stored_eq (h : region.Holds info data) : region.stored info = data := by
  have hcontent := h.buffer
  unfold stored
  cases hbuffer : region.buffer? info.field with
  | some buffer =>
    rw [hbuffer] at hcontent
    exact hcontent.2
  | none =>
    rw [hbuffer] at hcontent
    exact hcontent.symm

end Region

end HaloMesh
