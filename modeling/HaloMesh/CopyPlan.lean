-- SUMMARY: Copy plans: which runs a color receives from each source and sends to each destination.
import HaloMesh.Ghost.Interval

/-!
# Copy plans

A copy plan fixes how one color refreshes its ghosts on one index space: the runs it receives,
grouped by source, and the runs that each destination expects from it. Both ends of an exchange
compute their common runs from the coloring alone, in the same order.
-/

namespace HaloMesh

/-- Runs grouped by color, the colors increasing. -/
abbrev RunTable := List (Nat × List Run)

namespace RunTable

def bySource (runs : List Run) : RunTable :=
  (Ghost.ordered (runs.map (·.source))).map fun source =>
    (source, runs.filter (·.source == source))

/-- The runs of a color, none if it is not listed. -/
def runsOf (table : RunTable) (color : Nat) : List Run := (table.lookup color).getD []

end RunTable

/-- The ghost exchange of one color on one index space. -/
structure CopyPlan where
  indexSpace : Nat
  color : Nat
  slots : Nat
  tag : Nat
  /-- The runs that each source fills. -/
  recv : RunTable
  /-- The runs that each destination expects. -/
  send : RunTable
  deriving DecidableEq, Repr, Inhabited

namespace CopyPlan

/-- The tag of index space 0. Every index space has its own, counted modulo `2 ^ 16`. -/
def firstTag : Nat := 0x0C00

def tagOf (space : Nat) : Nat := (firstTag + space) % UInt16.size

/-! ## Contents -/

/-- All runs that the color receives, grouped by source. -/
def runs (p : CopyPlan) : List Run := p.recv.flatMap (·.2)

/-- The sources, increasing. -/
def sources (p : CopyPlan) : List Nat := p.recv.map (·.1)

/-- The destinations, increasing. -/
def destinations (p : CopyPlan) : List Nat := p.send.map (·.1)

/-- The runs that a destination expects from this color. -/
def sendsTo (p : CopyPlan) (dest : Nat) : List Run := p.send.runsOf dest

/-- The number of ghost slots that the plan fills. -/
def ghostLength (p : CopyPlan) : Nat := Run.totalLength p.runs

/-! ## Invariants -/

/-- The first two neighboring ranges of a list that overlap. -/
def firstOverlap? : List SlotRange → Option (SlotRange × SlotRange)
  | r :: s :: rest => if r.stop > s.start then some (r, s) else firstOverlap? (s :: rest)
  | _ => none

/-- Check ranges in the order of their starts: neighbors must not overlap, and the last one must end
within the storage. -/
def checkRanges (slots : Nat) (ranges : List SlotRange) : Except MeshError Unit :=
  match firstOverlap? ranges with
  | some (r, s) => .error (.invariant (.overlappingRuns r s))
  | none =>
    match ranges.getLast? with
    | some last =>
      if last.stop > slots then .error (.invariant (.runBeyondStorage last slots)) else .ok ()
    | none => .ok ()

/-- Check that no two runs fill a common slot and that all of them fill slots of the storage. -/
def check (p : CopyPlan) : Except Failure Unit := do
  let ranges ← liftM (p.runs.mapM Run.destRange)
  checkRanges p.slots (ranges.mergeSort fun r s => r.start ≤ s.start)

/-! ## Construction -/

def runsBetween (coloring : Coloring) (space color dest : Nat) : Except Fault (List Run) := do
  return (← Ghost.intervals coloring space dest).filter (·.source == color)

/-- The runs that every neighbor of `color` expects from it, leaving out those that expect none. -/
def sendTable (coloring : Coloring) (space color : Nat) : Except Fault RunTable := do
  let table ← (← Ghost.neighbors coloring space color).mapM fun dest => do
    return (dest, ← runsBetween coloring space color dest)
  return table.filter fun (_, runs) => !runs.isEmpty

/-- The plan of a color on an index space, derived without asking the other colors. -/
def derive (coloring : Coloring) (space color : Nat) : Except Fault CopyPlan := do
  let received ← Ghost.intervals coloring space color
  let send ← sendTable coloring space color
  let parts ← fetch coloring.parts space
  let me ← fetch parts color
  let slots ← me.size
  let plan : CopyPlan :=
    { indexSpace := space, color, slots, tag := tagOf space, recv := .bySource received, send }
  assertInvariants plan.check
  return plan

/-- The plan of a color on an index space that the coloring must have. -/
def ofColoring (coloring : Coloring) (space color : Nat) : Except Failure CopyPlan :=
  if space < coloring.indexSpaces then derive coloring space color
  else .error (.reported (.indexSpaceOutOfRange space coloring.indexSpaces))

end CopyPlan

end HaloMesh
