-- SUMMARY: One color of a colored mesh: its metadata, partitions, copy plans and field storage, and how to query it.
import HaloMesh.Comm.Program
import HaloMesh.CopyPlan
import HaloMesh.Partition
import HaloMesh.Topology.Domain

namespace HaloMesh

/-- One color of a colored mesh. -/
structure Topology where
  member : Member
  spec : ColoringSpec
  metadata : ColorMeta
  partitions : List Partition
  plans : List CopyPlan
  regions : List Region
  deriving DecidableEq, Repr, Inhabited

namespace Topology

def colors (t : Topology) : Nat := t.member.size

def color (t : Topology) : Nat := t.metadata.color

def indexSpaces (t : Topology) : Nat := t.metadata.spaces.length

def dimension (t : Topology) : Nat := t.spec.dimension

/-! ## Index spaces -/

def checkSpace (t : Topology) (space : Nat) : Except MeshError Unit :=
  if space < t.indexSpaces then .ok () else .error (.indexSpaceOutOfRange space t.indexSpaces)

/-- The entry of a list with one entry per index space. -/
def ofSpace {α : Type} (t : Topology) (entries : List α) (space : Nat) : Except Failure α := do
  t.checkSpace space
  fetch entries space

def partition (t : Topology) (space : Nat) : Except Failure Partition := t.ofSpace t.partitions space

def plan (t : Topology) (space : Nat) : Except Failure CopyPlan := t.ofSpace t.plans space

def region (t : Topology) (space : Nat) : Except Failure Region := t.ofSpace t.regions space

/-! ## Axes -/

/-- The part of an index space that the color stores, which must have the given axis. -/
def part (t : Topology) (space axis : Nat) : Except Failure IndexColoring := do
  let ic ← t.ofSpace t.metadata.spaces space
  if axis < ic.dimension then return ic
  else throw (.reported (.axisOutOfRange axis ic.dimension))

def isLow (t : Topology) (space axis : Nat) : Except Failure Bool := do
  (← t.part space axis).isLow axis

def isHigh (t : Topology) (space axis : Nat) : Except Failure Bool := do
  (← t.part space axis).isHigh axis

def isInterior (t : Topology) (space axis : Nat) : Except Failure Bool := do
  (← t.part space axis).isInterior axis

def bounds (t : Topology) (space axis : Nat) (domain : Domain) : Except Failure Domain.Bounds := do
  domain.bounds (← t.part space axis) axis

def range (t : Topology) (space axis : Nat) (domain : Domain) : Except Failure SlotRange := do
  domain.range (← t.part space axis) axis

def globalId (t : Topology) (space axis slot : Nat) : Except Failure Int := do
  (← t.part space axis).globalId axis slot

/-! ## Text -/

/-- A record in a diagnostic: its name and its fields with their texts. -/
def recordText (name : String) (fields : List (String × String)) : String :=
  name ++ " \x7b " ++ ", ".intercalate (fields.map fun (field, text) => field ++ ": " ++ text) ++ " \x7d"

def sequenceText (texts : List String) : String := "[" ++ ", ".intercalate texts ++ "]"

def boxText (box : Hypercube) : String :=
  recordText "Hypercube"
    [("low", sequenceText (box.low.map toString)), ("high", sequenceText (box.high.map toString))]

def partText (ic : IndexColoring) : String :=
  recordText "IndexColoring"
    [("global", listText ic.global), ("offset", listText ic.offset),
      ("extents", listText ic.extents), ("logical", boxText ic.logical),
      ("extended", boxText ic.extended), ("faces", toString ic.faces)]

def metadataText (m : ColorMeta) : String :=
  recordText "ColorMeta"
    [("color", toString m.color), ("spaces", sequenceText (m.spaces.map partText))]

def debugText (t : Topology) : String :=
  recordText "NArray"
    [("rank", toString t.member.rank), ("size", toString t.member.size),
      ("meta", metadataText t.metadata),
      ("regions", sequenceText (t.regions.map Region.debugText))]

end Topology

end HaloMesh
