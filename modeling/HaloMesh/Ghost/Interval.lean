-- SUMMARY: The ghost runs that a color receives: one slab per direction, cut into rows.
import HaloMesh.Coloring.Basic
import HaloMesh.Ghost.Direction
import HaloMesh.Ghost.Run

/-!
# Ghost intervals

For each direction that leaves a color through faces with ghosts, the neighbor in that direction
owns the values of one slab of ghost slots: the low ghosts for a step back, the high ghosts for a
step ahead, the owned range for no step. A slab is cut into rows along axis 0, which is contiguous in
storage, and adjoining rows are merged.
-/

namespace HaloMesh

/-- The extent of a slab along one axis: where it starts on both sides, and how wide it is. -/
structure Span where
  dest : Nat
  src : Nat
  width : Nat
  deriving DecidableEq, Repr, Inhabited

namespace Span

/-- The span of a slab along one axis, when the receiver is `me` and the values come from `nb`. -/
def along (me nb : IndexColoring) (a : Nat) (step : Step) : Except Fault Span := do
  let owned ← nb.localLogical a
  match step with
  | .back =>
    let width ← me.ghostLow a
    return ⟨0, ← Word.sub owned.stop width, width⟩
  | .ahead =>
    let width ← me.ghostHigh a
    return ⟨← Word.sub (← fetch me.extents a) width, owned.start, width⟩
  | .stay =>
    let here ← me.localLogical a
    return ⟨here.start, owned.start, ← me.owned a⟩

/-- The spans of the slab in a direction, from axis `a` on. There is no slab if one of them is
empty, and then the axes after it are not looked at. -/
def slabFrom (me nb : IndexColoring) : Nat → Direction → Except Fault (Option (List Span))
  | _, [] => .ok (some [])
  | a, step :: direction => do
    let span ← along me nb a step
    if span.width = 0 then return none
    match ← slabFrom me nb (a + 1) direction with
    | none => return none
    | some spans => return some (span :: spans)

def slab (me nb : IndexColoring) (direction : Direction) : Except Fault (Option (List Span)) :=
  slabFrom me nb 0 direction

end Span

namespace Ghost

/-! ## Rows -/

/-- Advance an odometer, whose first wheel runs fastest. A wheel that would reach its width goes back to
zero and carries over to the next, and there is nothing after a carry from the last one. -/
def advance : (widths offsets : List Nat) → Option (List Nat)
  | width :: widths, i :: offsets =>
    if i + 1 < width then some ((i + 1) :: offsets)
    else (advance widths offsets).map (0 :: ·)
  | _, _ => none

/-- A number that every turn of the odometer lowers. -/
def turnsLeft : (widths offsets : List Nat) → Nat
  | width :: widths, i :: offsets => (width - i) + (width + 1) * turnsLeft widths offsets
  | _, _ => 0

theorem turnsLeft_advance {widths offsets next : List Nat} (h : advance widths offsets = some next) :
    turnsLeft widths next < turnsLeft widths offsets := by
  induction widths generalizing offsets next with
  | nil => cases h
  | cons width widths ih =>
    cases offsets with
    | nil => cases h
    | cons i offsets =>
      rw [advance] at h
      split at h
      · cases h
        simp only [turnsLeft]
        omega
      · obtain ⟨rest, hrest, rfl⟩ := Option.map_eq_some_iff.mp h
        have hle : (width + 1) * (turnsLeft widths rest + 1) ≤ (width + 1) * turnsLeft widths offsets :=
          Nat.mul_le_mul_left _ (ih hrest)
        simp only [turnsLeft]
        rw [Nat.mul_succ] at hle
        omega

/-- Visit the given offsets and all that the odometer shows after them. -/
def rowsFrom {σ : Type} (widths : List Nat) (visit : List Nat → σ → Except Fault σ)
    (offsets : List Nat) (state : σ) : Except Fault σ := do
  let state ← visit offsets state
  match _h : advance widths offsets with
  | some next => rowsFrom widths visit next state
  | none => return state
termination_by turnsLeft widths offsets
decreasing_by exact turnsLeft_advance _h

/-- Visit every combination of offsets below the given widths, from all zeros on. -/
def forRows {σ : Type} (widths : List Nat) (visit : List Nat → σ → Except Fault σ) :
    σ → Except Fault σ :=
  rowsFrom widths visit (widths.map fun _ => 0)

/-- Move the starts of the spans by one offset per axis. -/
def shift (starts offsets : List Nat) : Except Fault (List Nat) :=
  (starts.zip offsets).mapM fun (start, offset) => Word.add start offset

/-- The row of a slab at given offsets along the axes after axis 0. -/
def row (me nb : IndexColoring) (source : Nat) (spans : List Span) (offsets : List Nat) :
    Except Fault Run := do
  let offsets := 0 :: offsets
  let dest ← shift (spans.map (·.dest)) offsets
  let src ← shift (spans.map (·.src)) offsets
  let dest ← Grid.index me.extents dest
  let first ← fetch spans 0
  let src ← Grid.index nb.extents src
  return { dest, length := first.width, source, src }

/-- Add the rows of a slab to the runs found so far. -/
def pushSlab (me nb : IndexColoring) (source : Nat) (spans : List Span) (found : List Run) :
    Except Fault (List Run) :=
  forRows (spans.tail.map (·.width))
    (fun offsets found => do Run.push found (← row me nb source spans offsets)) found

/-! ## Intervals -/

/-- The color one step away from the position of another in a direction. -/
def neighbor (d : ColoringDefinition) (position : List Nat) (direction : Direction) :
    Except Fault Nat := do
  Grid.index d.axisColors (← direction.move position d.axisColors)

/-- Add the runs of the slab in a direction to those found so far. -/
def pushDirection (d : ColoringDefinition) (parts : List IndexColoring) (me : IndexColoring)
    (position : List Nat) (found : List Run) (direction : Direction) : Except Fault (List Run) := do
  let source ← neighbor d position direction
  let nb ← fetch parts source
  match ← Span.slab me nb direction with
  | none => return found
  | some spans => pushSlab me nb source spans found

/-- The ghost runs that `color` receives on an index space, in the order of their discovery. -/
def intervals (coloring : Coloring) (space color : Nat) : Except Fault (List Run) := do
  let d ← fetch coloring.spec.indexSpaces space
  let parts ← fetch coloring.parts space
  let me ← fetch parts color
  let position ← Grid.coords d.axisColors color
  let found ← (Direction.all d.dimension).foldlM (pushDirection d parts me position) []
  return found.reverse

/-- Insert a number into an increasing list unless it is there. -/
def insertNew (n : Nat) : List Nat → List Nat
  | [] => [n]
  | m :: rest => if n < m then n :: m :: rest else if n = m then m :: rest else m :: insertNew n rest

/-- The members of a list in increasing order, each once. -/
def ordered (ns : List Nat) : List Nat := ns.foldr insertNew []

/-- The colors one step away from a color in any direction, in increasing order. -/
def neighbors (coloring : Coloring) (space color : Nat) : Except Fault (List Nat) := do
  let d ← fetch coloring.spec.indexSpaces space
  let position ← Grid.coords d.axisColors color
  return ordered (← (Direction.all d.dimension).mapM (neighbor d position))

end Ghost

end HaloMesh
