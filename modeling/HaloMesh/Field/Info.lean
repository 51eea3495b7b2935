-- SUMMARY: Field descriptors and the append-only store that maps field keys to them.
import HaloMesh.Fault

/-!
# Fields

Nothing is ever removed from a store or replaced, so the first registration under a key is the one
that counts.
-/

namespace HaloMesh

/-- The descriptor of a field. -/
structure FieldInfo where
  /-- The id of the field, which names its buffer in every region. -/
  field : Nat
  indexSpace : Nat
  typeSize : Nat
  deriving DecidableEq, Repr, Inhabited

/-- Descriptors in the order of their registration, and for each key the place of its descriptor. -/
structure FieldStore where
  descriptors : List FieldInfo := []
  places : List (FieldKey × Nat) := []
  places_lt : ∀ entry ∈ places, entry.2 < descriptors.length := by simp
  deriving DecidableEq, Repr

instance : Inhabited FieldStore := ⟨{}⟩

namespace FieldStore

def empty : FieldStore := {}

def all (store : FieldStore) : List FieldInfo := store.descriptors

def size (store : FieldStore) : Nat := store.descriptors.length

/-- The place of the descriptor registered under a key. -/
def place? (store : FieldStore) (key : FieldKey) : Option (Fin store.descriptors.length) :=
  match h : store.places.find? (·.1 == key) with
  | some entry => some ⟨entry.2, store.places_lt entry (List.mem_of_find?_eq_some h)⟩
  | none => none

def get? (store : FieldStore) (key : FieldKey) : Option FieldInfo :=
  (store.place? key).map fun place => store.descriptors[place]

def get (store : FieldStore) (key : FieldKey) : Except MeshError FieldInfo :=
  match store.get? key with
  | some info => .ok info
  | none => .error (.fieldNotFound key)

/-- Put a descriptor after all others, and note its place under a key. -/
def append (store : FieldStore) (info : FieldInfo) (key : FieldKey) : FieldStore where
  descriptors := store.descriptors ++ [info]
  places := store.places ++ [(key, store.descriptors.length)]
  places_lt entry h := by
    rw [List.length_append, List.length_singleton]
    rcases List.mem_append.mp h with h | h
    · exact Nat.lt_succ_of_lt (store.places_lt entry h)
    · rw [List.mem_singleton.mp h]
      exact Nat.lt_succ_self _

/-- Register a descriptor under a key that is not yet taken. -/
def add (store : FieldStore) (info : FieldInfo) (key : FieldKey) : Except MeshError FieldStore :=
  match store.place? key with
  | some _ => .error (.duplicateFieldKey key)
  | none => .ok (store.append info key)

/-- The descriptors on one index space, in the order of their registration. -/
def onSpace (store : FieldStore) (space : Nat) : List FieldInfo :=
  store.all.filter (·.indexSpace == space)

def registrationText (info : FieldInfo) (key : FieldKey) : String :=
  s!"Registering field info key={key.text} fid={info.field} index_space={info.indexSpace} type_size={info.typeSize}"

end FieldStore

/-! ## Defining fields -/

/-- The names under which a field is defined. -/
structure FieldName where
  space : String
  name : String
  version : UInt32
  deriving DecidableEq, Repr, Inhabited

def FieldName.key (name : FieldName) : FieldKey := .ofName name.space name.name name.version

/-- The descriptor that the next definition gets: its id is the number of fields defined so far. -/
def FieldStore.next (store : FieldStore) (typeSize indexSpace : Nat) : FieldInfo :=
  ⟨store.size, indexSpace, typeSize⟩

/-! ## The process-wide registry -/

/-- The registry of a process: empty until a store is installed, and then fixed. -/
structure Registry where
  installed : Option FieldStore := none
  deriving DecidableEq, Repr, Inhabited

namespace Registry

/-- Install a store, which can happen once. -/
def install (registry : Registry) (store : FieldStore) : Except MeshError Registry :=
  match registry.installed with
  | some _ => .error .registryInstalled
  | none => .ok ⟨some store⟩

def store (registry : Registry) : Except MeshError FieldStore :=
  match registry.installed with
  | some store => .ok store
  | none => .error .registryNotInstalled

def get (registry : Registry) (key : FieldKey) : Except MeshError FieldInfo := do
  (← registry.store).get key

end Registry

end HaloMesh
