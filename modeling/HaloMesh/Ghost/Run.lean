-- SUMMARY: Runs of ghost slots with the place their values come from, and the merging of adjoining runs.
import HaloMesh.Word

/-!
# Ghost runs

Runs are collected in the order of their discovery, and a run that continues the one before it on
both sides is merged into it. Offsets and lengths count elements.
-/

namespace HaloMesh

/-- Consecutive ghost slots and the slots that hold their values. -/
structure Run where
  /-- The first ghost slot, in the storage of the receiver. -/
  dest : Nat
  length : Nat
  /-- The color that owns the values. -/
  source : Nat
  /-- The first slot of the values, in the storage of the source. -/
  src : Nat
  deriving DecidableEq, Repr, Inhabited

namespace Run

def destRange (r : Run) : Except Fault SlotRange := do
  return ⟨r.dest, ← Word.add r.dest r.length⟩

def srcRange (r : Run) : Except Fault SlotRange := do
  return ⟨r.src, ← Word.add r.src r.length⟩

/-- Whether `next` continues `r` on both sides. -/
def continues (r next : Run) : Except Fault Bool := do
  if r.source ≠ next.source then return false
  if (← Word.add r.dest r.length) ≠ next.dest then return false
  return (← Word.add r.src r.length) == next.src

/-- Add a run to those found so far, of which the latest comes first. -/
def push (found : List Run) (next : Run) : Except Fault (List Run) := do
  match found with
  | [] => return [next]
  | last :: earlier =>
    if ← last.continues next then
      return { last with length := ← Word.add last.length next.length } :: earlier
    else return next :: last :: earlier

def totalLength (runs : List Run) : Nat := runs.foldr (·.length + ·) 0

end Run

end HaloMesh
