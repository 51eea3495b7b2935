-- SUMMARY: Checking across the group that every color sends what its neighbors expect.
import HaloMesh.Collective.AllToAll
import HaloMesh.CopyPlan

/-!
# Plan verification

Before a plan is used, every color tells every source how many runs and slots it expects from it,
and compares what it is told with its own send table.
-/

namespace HaloMesh

/-- How many runs and slots a color expects from a source. -/
structure Summary where
  runs : Nat := 0
  elements : Nat := 0
  deriving DecidableEq, Repr, Inhabited

namespace Summary

def ofRuns (runs : List Run) : Except Fault Summary := do
  return ⟨runs.length, ← Word.sum (runs.map (·.length))⟩

def codec : Codec Summary :=
  (Codec.word.pair .word).iso (fun (runs, elements) => ⟨runs, elements⟩) fun s =>
    (s.runs, s.elements)

def debugText (s : Summary) : String :=
  "IntervalSummary \x7b runs: " ++ toString s.runs ++ ", elements: " ++ toString s.elements ++ " \x7d"

end Summary

namespace CopyPlan

/-- A destination that expects something else than it would get. -/
structure Mismatch where
  dest : Nat
  expected : Summary
  actual : Summary
  deriving DecidableEq, Repr, Inhabited

def wouldSend (p : CopyPlan) (dest : Nat) : Except Fault Summary :=
  match p.send.lookup dest with
  | some runs => Summary.ofRuns runs
  | none => .ok {}

/-- The first destination that expects something else than it would get. -/
def unmet? (p : CopyPlan) : List (Nat × Summary) → Except Fault (Option Mismatch)
  | [] => .ok none
  | (dest, expected) :: rest => do
    let actual ← p.wouldSend dest
    if actual = expected then unmet? p rest else return some ⟨dest, expected, actual⟩

/-- The first destination that would get something and does not say what it expects. -/
def unexpected? (p : CopyPlan) (expected : List (Nat × Summary)) :
    Except Fault (Option Mismatch) :=
  match p.send.find? fun (dest, _) => !(expected.map (·.1)).contains dest with
  | some (dest, runs) => do return some ⟨dest, {}, ← Summary.ofRuns runs⟩
  | none => .ok none

/-- The mismatch to report, when each listed destination expects what stands beside it. -/
def mismatch? (p : CopyPlan) (expected : List (Nat × Summary)) : Except Fault (Option Mismatch) := do
  match ← p.unmet? expected with
  | some mismatch => return some mismatch
  | none => p.unexpected? expected

/-- What a color tells the source `rank`: the summary of the runs it expects, if there are any. -/
def expectation (p : CopyPlan) (rank : Nat) : Except Fault (Option Summary) :=
  match p.recv.lookup rank with
  | some runs => do return some (← Summary.ofRuns runs)
  | none => .ok none

/-- What a color tells every rank, which takes three words each. -/
def expectations (p : CopyPlan) (me : Member) : Except Fault (List (Option Summary)) := do
  Word.reserve (24 * me.size)
  (List.range me.size).mapM p.expectation

def reportMismatch (p : CopyPlan) (mismatch : Mismatch) : Comm Unit := do
  Program.record .error
    s!"color {mismatch.dest} expects {mismatch.expected.debugText} from color {p.color}, which would send {mismatch.actual.debugText}"
  Comm.report
    (.asymmetricIntervals mismatch.dest p.color mismatch.expected.elements mismatch.actual.elements)

/-- Check the plan against the plans of all other colors. All ranks of the group take part. -/
def verify (p : CopyPlan) (me : Member) : Comm Unit := do
  let items ← p.expectations me
  let outgoing ← reportCodec (Outgoing.ofItems Summary.codec.packer items)
  let expected ← allToAll Summary.codec.packer.unpack me AllToAll.defaultTag outgoing
  match ← p.mismatch? expected with
  | some mismatch => p.reportMismatch mismatch
  | none => return ()

/-- The plan of the own color, checked against the others. All ranks of the group take part. -/
def establish (me : Member) (coloring : Coloring) (space : Nat) : Comm CopyPlan := do
  let plan ← ofColoring coloring space me.rank
  plan.verify me
  Program.record .debug
    s!"copy plan space={space} color={plan.color}: {plan.ghostLength} ghost slots from {plan.recv.length} sources, {plan.send.length} destinations"
  return plan

end CopyPlan

end HaloMesh
