-- SUMMARY: Structural invariants that can fail, and how each failure reads.

namespace HaloMesh

/-- A half-open range of storage slots. -/
structure SlotRange where
  start : Nat
  stop : Nat
  deriving DecidableEq, Repr, Inhabited

/-- A range is written with its two ends around two dots. -/
def SlotRange.text (r : SlotRange) : String :=
  toString r.start ++ ".." ++ toString r.stop

/-- An invariant of the library that does not hold. -/
inductive Violation where
  | coloringCount (space count colors : Nat)
  | blockStart (space axis position : Nat) (start expected : Int)
  | blockEnd (space axis : Nat) (stop : Int) (extent : Nat)
  /-- The ghost widths of a color do not follow from its faces and the halo depth. -/
  | ghostWidths (space axis low high halo : Nat)
  /-- A count exchange was given another number of counts than the group has ranks. -/
  | countEntries (size given : Nat)
  | overlappingRuns (first second : SlotRange)
  | runBeyondStorage (run : SlotRange) (slots : Nat)
  /-- A copy plan was applied to the storage of another color or size. -/
  | foreignRegion (planColor planSlots regionColor regionSlots : Nat)
  /-- The bytes of a field do not start where elements of a type may. -/
  | misalignedElements (field : Nat)
  | unevenElements (field : Nat)
  /-- An invariant described only by its text. -/
  | other (text : String)
  deriving DecidableEq, Repr, Inhabited

def Violation.message : Violation → String
  | .coloringCount space count colors =>
      s!"index space {space} has {count} colorings for {colors} colors"
  | .blockStart space axis position start expected =>
      s!"space {space} axis {axis}: color position {position} starts at {start} instead of {expected}"
  | .blockEnd space axis stop extent =>
      s!"space {space} axis {axis}: logical blocks end at {stop}, extent is {extent}"
  | .ghostWidths space axis low high halo =>
      s!"space {space} axis {axis}: ghost widths ({low}, {high}), halo depth is {halo}"
  | .countEntries size given =>
      s!"all_to_all_counts needs {size} entries, got {given}"
  | .overlappingRuns first second =>
      s!"ghost runs {first.text} and {second.text} overlap"
  | .runBeyondStorage run slots =>
      s!"ghost run {run.text} exceeds local storage of {slots} slots"
  | .foreignRegion planColor planSlots regionColor regionSlots =>
      s!"copy plan for color {planColor} ({planSlots} slots) applied to a region of color {regionColor} ({regionSlots} slots)"
  | .misalignedElements field => s!"field {field}: TargetAlignmentGreaterAndInputNotAligned"
  | .unevenElements field => s!"field {field}: OutputSliceWouldHaveSlop"
  | .other text => text

end HaloMesh
