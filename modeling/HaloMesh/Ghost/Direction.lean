-- SUMMARY: The directions in which a color has neighbors, and the positions they lead to.
import HaloMesh.Word

/-!
# Directions

A direction goes one step back, one step ahead or not at all along each axis, and somewhere at all.
In `d` dimensions there are `3 ^ d - 1` of them. They are listed with the last axis running fastest.
-/

namespace HaloMesh

/-- A step along one axis. -/
inductive Step where
  | back
  | stay
  | ahead
  deriving DecidableEq, Repr, Inhabited

def Step.all : List Step := [.back, .stay, .ahead]

/-- A step along each axis. -/
abbrev Direction := List Step

namespace Direction

def combinations : Nat → List Direction
  | 0 => [[]]
  | d + 1 => Step.all.flatMap fun step => (combinations d).map (step :: ·)

def all (d : Nat) : List Direction :=
  (combinations d).filter fun direction => direction.any (· != .stay)

end Direction

/-- The position one step away from `c` among `colors` positions that wrap around. -/
def Step.move (step : Step) (c colors : Nat) : Except Fault Nat := do
  match step with
  | .back => Word.mod (← Word.sub (← Word.add c colors) 1) colors
  | .stay => return c
  | .ahead => Word.mod (← Word.add c 1) colors

/-- The position in the color grid one step away in a direction. -/
def Direction.move : Direction → List Nat → List Nat → Except Fault (List Nat)
  | step :: direction, c :: position, colors :: grid => do
    let first ← step.move c colors
    let rest ← Direction.move direction position grid
    return first :: rest
  | _, _, _ => .ok []

end HaloMesh
