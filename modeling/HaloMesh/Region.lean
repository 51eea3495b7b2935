-- SUMMARY: The field storage of one index space on one color: zeroed on first use, found by field id.
import HaloMesh.Bytes
import HaloMesh.Field.Info
import HaloMesh.Word

/-!
# Regions

Each field gets a zeroed buffer when it is first asked for in a way that may write, and a flag that
says whether its ghost slots hold current values. A field that is turned away by a check gets no
buffer, which is why `allocate` returns the new region only on success.
-/

namespace HaloMesh

/-- The storage of one field. -/
structure FieldBuffer where
  bytes : Bytes
  /-- The element size that the buffer was allocated for. -/
  typeSize : Nat
  ghostsValid : Bool
  deriving DecidableEq, Repr, Inhabited

/-- The fields of one index space on one color. -/
structure Region where
  indexSpace : Nat
  color : Nat
  length : Nat
  buffers : List (Nat × FieldBuffer) := []
  deriving DecidableEq, Repr, Inhabited

namespace Region

/-! ## Buffers -/

def new (indexSpace color length : Nat) : Region := { indexSpace, color, length }

def buffer? (r : Region) (field : Nat) : Option FieldBuffer :=
  (r.buffers.find? (·.1 == field)).map Prod.snd

def isAllocated (r : Region) (field : Nat) : Bool := (r.buffer? field).isSome

/-- Put a buffer in the place of the one under the same id, or after all others. -/
def replace (field : Nat) (buffer : FieldBuffer) : List (Nat × FieldBuffer) → List (Nat × FieldBuffer)
  | [] => [(field, buffer)]
  | (f, b) :: rest =>
    if f = field then (field, buffer) :: rest else (f, b) :: replace field buffer rest

def setBuffer (r : Region) (field : Nat) (buffer : FieldBuffer) : Region :=
  { r with buffers := replace field buffer r.buffers }

/-- Looking up a field after it was given a buffer finds that buffer, and other fields are as before. -/
theorem buffer?_setBuffer (r : Region) (field other : Nat) (buffer : FieldBuffer) :
    (r.setBuffer field buffer).buffer? other =
      if other = field then some buffer else r.buffer? other := by
  unfold setBuffer buffer?
  simp only
  induction r.buffers with
  | nil =>
    by_cases h : other = field
    · simp [replace, h]
    · simp [replace, h, Ne.symm h]
  | cons entry rest ih =>
    obtain ⟨f, b⟩ := entry
    by_cases hf : f = field
    · subst hf
      by_cases h : other = f
      · simp [replace, h]
      · simp [replace, h, Ne.symm h]
    · by_cases h : f = other
      · subst h
        simp [replace, hf]
      · have hne : (f == other) = false := by simpa using h
        simp only [replace, hf, if_false, List.find?_cons, hne]
        exact ih

/-! ## Storage of a field -/

/-- Check that a field lives on the index space of the region. -/
def checkSpace (r : Region) (info : FieldInfo) : Except MeshError Unit :=
  if info.indexSpace = r.indexSpace then .ok ()
  else .error (.fieldSpaceMismatch info.field r.indexSpace info.indexSpace)

def bytes (r : Region) (info : FieldInfo) : Except MeshError Bytes := do
  r.checkSpace info
  match r.buffer? info.field with
  | some buffer => return buffer.bytes
  | none => throw (.fieldUnallocated info.field)

/-- Buffers are allocated in chunks of 16 bytes, as many as it takes. -/
def chunkCount (n : Nat) : Nat := (n + 15) / 16

/-- What is reserved for `n` bytes, which is the whole chunks. -/
def chunked (n : Nat) : Nat := chunkCount n * 16

/-- A buffer of `n` bytes, which is the front of zeroed chunks. -/
def zeroBuffer (n typeSize : Nat) : Except Fault FieldBuffer := do
  Word.reserve (chunked n)
  return ⟨(List.replicate (chunkCount n) (Bytes.zeros 16)).flatten.take n, typeSize, false⟩

/-- Give a field a zeroed buffer unless it has one, which must have been allocated for elements of
the same size. -/
def allocate (r : Region) (info : FieldInfo) : Except Failure Region := do
  r.checkSpace info
  let size ← Word.mul r.length info.typeSize
  match r.buffer? info.field with
  | some buffer =>
    if buffer.typeSize = info.typeSize then return r
    else throw (.reported (.fieldTypeSize info.field buffer.typeSize info.typeSize))
  | none => return r.setBuffer info.field (← zeroBuffer size info.typeSize)

def allocationText? (r : Region) (info : FieldInfo) : Option String :=
  match r.checkSpace info, Word.mul r.length info.typeSize, r.buffer? info.field with
  | .ok (), .ok size, none =>
    some s!"allocating {size} bytes for field {info.field} on space {info.indexSpace} color {r.color}"
  | _, _, _ => none

def setBytes (r : Region) (field : Nat) (bytes : Bytes) : Region :=
  match r.buffer? field with
  | some buffer => r.setBuffer field { buffer with bytes }
  | none => r

/-! ## Typed views -/

/-- A type whose elements a field can be viewed as. -/
structure ElementType where
  size : Nat
  /-- Whether the storage of the field meets the alignment of the type. Buffers start at multiples of 16
  bytes, so only that of a type with a stricter alignment may not. -/
  aligned : Bool := true
  deriving DecidableEq, Repr, Inhabited

/-- The bytes of a field as elements of a given size. -/
structure View where
  elementSize : Nat
  bytes : Bytes
  deriving DecidableEq, Repr, Inhabited

namespace View

/-- The number of elements. Elements without bytes cannot be counted, and there are none. -/
def length (v : View) : Nat := v.bytes.length / v.elementSize

def elements (v : View) : List Bytes :=
  (List.range v.length).map fun i => (v.bytes.drop (i * v.elementSize)).take v.elementSize

/-- The elements, each read as a number. -/
def values (v : View) : List Nat := v.elements.map LittleEndian.value

def set (v : View) (i : Nat) (element : Bytes) : Except Fault View :=
  if i < v.length then .ok { v with bytes := v.bytes.overwrite (i * v.elementSize) element }
  else .error (.indexOutOfRange v.length i)

/-- Overwrite the element at an index by a number, of which the low bytes are kept. -/
def setValue (v : View) (i n : Nat) : Except Fault View :=
  v.set i (LittleEndian.encode v.elementSize n)

end View

/-- Check that elements of a type are what a field consists of. -/
def checkElement (info : FieldInfo) (element : ElementType) : Except MeshError Unit :=
  if element.size = info.typeSize then .ok ()
  else .error (.fieldTypeSize info.field info.typeSize element.size)

/-- View bytes as elements of a type, if they start where these may and are a whole number of them. -/
def castTo (info : FieldInfo) (element : ElementType) (bytes : Bytes) : Except MeshError View :=
  if !element.aligned then .error (.invariant (.misalignedElements info.field))
  else if bytes.length % element.size = 0 then .ok ⟨element.size, bytes⟩
  else .error (.invariant (.unevenElements info.field))

def view (r : Region) (info : FieldInfo) (element : ElementType) : Except MeshError View := do
  checkElement info element
  castTo info element (← r.bytes info)

/-! ## Ghost flags -/

/-- Whether the ghost slots of a field hold current values. -/
def ghostsValid (r : Region) (field : Nat) : Bool :=
  match r.buffer? field with
  | some buffer => buffer.ghostsValid
  | none => false

/-- Set the flag of a field that has a buffer. -/
def setGhostsValid (r : Region) (field : Nat) (valid : Bool) : Region :=
  match r.buffer? field with
  | some buffer => r.setBuffer field { buffer with ghostsValid := valid }
  | none => r

/-! ## Text -/

def fields (r : Region) : List Nat := (r.buffers.map Prod.fst).mergeSort

def debugText (r : Region) : String :=
  "Region \x7b index_space: " ++ toString r.indexSpace ++ ", color: " ++ toString r.color ++
    ", len: " ++ toString r.length ++ ", fields: " ++ listText r.fields ++ " \x7d"

end Region

end HaloMesh
