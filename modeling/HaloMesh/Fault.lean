-- SUMMARY: Faults, which end a computation that leaves the range of its numbers or indices, and failures in general.
import HaloMesh.Error

/-!
# Faults

A fault ends a computation that has no answer: arithmetic that leaves the 64-bit range, an index
past the end of a list, a buffer that cannot exist. It is kept apart from the errors that an
operation reports to its caller, since no caller is meant to handle it.
-/

namespace HaloMesh

/-- The arithmetic operations that can leave their range. -/
inductive Arithmetic where
  | add
  | subtract
  | multiply
  | shiftLeft
  | shiftRight
  deriving DecidableEq, Repr, Inhabited

def Arithmetic.name : Arithmetic → String
  | .add => "add"
  | .subtract => "subtract"
  | .multiply => "multiply"
  | .shiftLeft => "shift left"
  | .shiftRight => "shift right"

/-- Why a computation has no answer. -/
inductive Fault where
  | overflow (operation : Arithmetic)
  | divideByZero
  | remainderByZero
  | indexOutOfRange (length index : Nat)
  | sliceStart (length start : Nat)
  | sliceStop (length stop : Nat)
  /-- A buffer or list of more than `2 ^ 63 - 1` bytes is asked for. -/
  | capacity
  | tooManyModes
  | modeOutOfRange
  /-- A value was built that breaks its own invariant. -/
  | brokenInvariant (error : MeshError)
  /-- A rank gave up and ended the whole group. -/
  | aborted (rank code : Nat)
  deriving DecidableEq, Repr, Inhabited

def Fault.message : Fault → String
  | .overflow operation => s!"attempt to {operation.name} with overflow"
  | .divideByZero => "attempt to divide by zero"
  | .remainderByZero => "attempt to calculate the remainder with a divisor of zero"
  | .indexOutOfRange length index =>
      s!"index out of bounds: the len is {length} but the index is {index}"
  | .sliceStart length start =>
      s!"range start index {start} out of range for slice of length {length}"
  | .sliceStop length stop =>
      s!"range end index {stop} out of range for slice of length {length}"
  | .capacity => "capacity overflow"
  | .tooManyModes => "too many privileges for one pack"
  | .modeOutOfRange => "privilege index out of range"
  | .brokenInvariant error => "[invariants] DebugInvariants: " ++ error.message
  | .aborted rank code => s!"rank {rank} aborted the process group (code {code})"

/-- The element of a list at an index, or the fault that names both. -/
def fetch {α : Type} (xs : List α) (i : Nat) : Except Fault α :=
  match xs[i]? with
  | some x => .ok x
  | none => .error (.indexOutOfRange xs.length i)

theorem fetch_eq_ok_iff {α : Type} {xs : List α} {i : Nat} {x : α} :
    fetch xs i = .ok x ↔ xs[i]? = some x := by
  unfold fetch
  cases xs[i]? <;> simp

/-! ## Failures -/

/-- How an operation can fail: by reporting an error, or by a fault. -/
inductive Failure where
  | reported (error : MeshError)
  | fault (cause : Fault)
  deriving DecidableEq, Repr, Inhabited

def Failure.message : Failure → String
  | .reported error => error.message
  | .fault cause => cause.message

instance : MonadLift (Except Fault) (Except Failure) where
  monadLift x := x.mapError .fault

instance : MonadLift (Except MeshError) (Except Failure) where
  monadLift x := x.mapError .reported

/-- Run the check of a value that was just built. An error it reports means that the value was built
wrongly, which is a fault. -/
def assertInvariants (check : Except Failure Unit) : Except Fault Unit :=
  match check with
  | .ok () => .ok ()
  | .error (.reported error) => .error (.brokenInvariant error)
  | .error (.fault cause) => .error cause

end HaloMesh
