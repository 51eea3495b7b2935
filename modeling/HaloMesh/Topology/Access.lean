-- SUMMARY: Access to fields through privileges: refreshing ghosts when they are needed and stale, and typed views.
import HaloMesh.Loop
import HaloMesh.Privilege.Pack
import HaloMesh.Topology.Construct

/-!
# Field access

Whether a task needs its ghosts copied depends only on its privileges and on what was done to the
field before, so ranks that do the same things in the same order agree on it, and no rank waits for a
copy that another one skips.
-/

namespace HaloMesh

namespace Topology

/-- What a rank does with its topology. The topology survives a failure. -/
abbrev Action (α : Type) := CommState Topology α

/-- Act on the field storage of an index space. What was changed stays changed if the action
fails. -/
def onRegion {α : Type} (space : Nat) (x : CommState Region α) : Action α := do
  let t ← get
  let region ← fetch t.regions space
  let (result, region) ← x.run.run region
  set { t with regions := t.regions.set space region }
  liftM result

/-! ## Ghosts -/

/-- Fill the ghost slots of a field, whether or not they are stale. All ranks take part. -/
def ghostCopy (info : FieldInfo) : Action Unit := do
  let plan ← (← get).plan info.indexSpace
  onRegion info.indexSpace do
    plan.refresh info
    modify (·.setGhostsValid info.field true)

/-- Give a field storage, and say whether a task with the given privileges needs a copy of its
ghosts. -/
def prepare (info : FieldInfo) (pack : Pack) : CommState Region Bool := do
  Region.ensure info
  return pack.shouldRefresh && !(← get).ghostsValid info.field

/-- Prepare a field for a task with the given privileges, and say whether its ghosts were copied.
Where they have to be, all ranks take part. -/
def access (info : FieldInfo) (pack : Pack) : Action Bool := do
  (← get).checkSpace info.indexSpace
  let needed ← onRegion info.indexSpace (prepare info pack)
  if needed then ghostCopy info
  if pack.allowsWrite then
    onRegion info.indexSpace do modify (·.setGhostsValid info.field false)
  return needed

/-! ## Views -/

/-- The descriptor of a field of the process-wide registry, which must live on an index space of the
topology. -/
def fieldInfo (t : Topology) (registry : Registry) (key : FieldKey) : Except MeshError FieldInfo := do
  let info ← registry.get key
  t.checkSpace info.indexSpace
  return info

/-- View a field as elements of a type, ghosts as they were last copied. -/
def field (t : Topology) (info : FieldInfo) (element : Region.ElementType) :
    Except Failure Region.View := do
  let region ← t.region info.indexSpace
  region.view info element

/-- What a task does with a field through a view. It may fault, and what it wrote stays written. -/
abbrev Task (α : Type) := ExceptT Fault (StateM Region.View) α

def Task.write (i n : Nat) : Task Unit := do
  set (← (← get).setValue i n)

/-- Run a task on a field of a region, allocating it if needed. -/
def runTask {α : Type} (info : FieldInfo) (element : Region.ElementType) (task : Task α) :
    CommState Region α := do
  let view ← Region.ensureView info element
  let (result, view) := task.run.run view
  modify (·.setBytes info.field view.bytes)
  liftM result

/-- Run a task on a field without regard to privileges. The ghosts are stale afterwards. -/
def fieldMut {α : Type} (info : FieldInfo) (element : Region.ElementType) (task : Task α) :
    Action α := do
  (← get).checkSpace info.indexSpace
  onRegion info.indexSpace do
    Region.ensure info
    modify (·.setGhostsValid info.field false)
    runTask info element task

/-- Run a task with the given privileges on a field of the process-wide registry. -/
def withField {α : Type} (registry : Registry) (key : FieldKey) (pack : Pack)
    (element : Region.ElementType) (task : Task α) : Action α := do
  let info ← (← get).fieldInfo registry key
  let _ ← access info pack
  onRegion info.indexSpace (runTask info element task)

/-! ## Filling a field -/

/-- The coordinates of a slot, one for each of the given ranges, if all of them lie in their ranges. -/
def coordsWithin (ic : IndexColoring) (ranges : List SlotRange) (slot : Nat) :
    Except Fault (Option (List Nat)) := do
  let coords := (← Grid.coords ic.extents slot).take ranges.length
  let inside := (coords.zip ranges).all fun (c, range) => range.start ≤ c && c < range.stop
  return if inside then some coords else none

/-- Write the element in a slot as a function of its global coordinates if it lies in the given
ranges, and count it. -/
def fillSlot (ic : IndexColoring) (ranges : List SlotRange) (value : List Int → Nat) (slot count : Nat) :
    Task Nat := do
  match ← coordsWithin ic ranges slot with
  | none => return count
  | some coords =>
    let ids ← liftM (coords.zipIdx.mapM fun (c, axis) => ic.globalId axis c)
    Task.write slot (value ids)
    return count + 1

/-- Fill the owned elements of a field by a function of their global coordinates, and return their
number. -/
def fillOwned (info : FieldInfo) (element : Region.ElementType) (value : List Int → Nat) :
    Action Nat := do
  let t ← get
  let ranges ← liftM ((List.range t.dimension).mapM (t.range info.indexSpace · .logical))
  let ic ← t.ofSpace t.metadata.spaces info.indexSpace
  fieldMut info element do
    countUpTo (← getThe Region.View).length (fillSlot ic ranges value) 0

end Topology

end HaloMesh
