-- SUMMARY: The operations on colorings, fields and regions that write to the log.
import HaloMesh.Coloring.Basic
import HaloMesh.Comm.Program
import HaloMesh.Region

/-!
# Logged operations

Deriving a coloring, registering a field and allocating a buffer each leave a line in the log. The
operations themselves are plain functions; here they become actions of a rank.
-/

namespace HaloMesh

def Coloring.derive (spec : ColoringSpec) : Comm Coloring := do
  let coloring ← Coloring.ofSpec spec
  Program.record .debug coloring.derivationText
  return coloring

def FieldStore.register (info : FieldInfo) (key : FieldKey) : CommState FieldStore Unit := do
  let store ← (← getThe FieldStore).add info key
  Program.record .debug (FieldStore.registrationText info key)
  set store

/-- Define a field of a given element size, and return its key. Any function of the names may give the key. -/
def FieldStore.registerNext (name : FieldName) (typeSize indexSpace : Nat)
    (keyOf : FieldName → FieldKey := FieldName.key) : CommState FieldStore FieldKey := do
  FieldStore.register ((← getThe FieldStore).next typeSize indexSpace) (keyOf name)
  return keyOf name

def Region.ensure (info : FieldInfo) : CommState Region Unit := do
  let region ← get
  match region.allocationText? info with
  | some text => Program.record .trace text
  | none => pure ()
  set (← region.allocate info)

/-- Overwrite bytes of a field of the region from an offset on, allocating it if needed, and return
all of its bytes. -/
def Region.writeBytes (info : FieldInfo) (start : Nat) (new : Bytes) : CommState Region Bytes := do
  Region.ensure info
  let old ← (← get).bytes info
  let _ ← old.slice start (← Word.add start new.length)
  let bytes := old.overwrite start new
  modify (·.setBytes info.field bytes)
  return bytes

/-- Copy bytes to the front of a field of the region as far as there is room, allocating it if
needed. -/
def Region.fillFront (info : FieldInfo) (new : Bytes) : CommState Region Unit := do
  Region.ensure info
  let old ← (← get).bytes info
  modify (·.setBytes info.field (old.overwrite 0 (new.take old.length)))

/-- View a field of the region as elements of a type, allocating it if needed. It stays allocated if its
bytes cannot be viewed so. -/
def Region.ensureView (info : FieldInfo) (element : ElementType) : CommState Region View := do
  Region.checkElement info element
  Region.ensure info
  Region.castTo info element (← (← get).bytes info)

end HaloMesh
