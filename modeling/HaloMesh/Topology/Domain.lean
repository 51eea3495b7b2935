-- SUMMARY: The named subsets of one axis of local storage.
import HaloMesh.Codec.Basic
import HaloMesh.Coloring.IndexColoring

/-!
# Domains

A domain names one of the ranges that the storage of a color has along an axis, the owned range with
its padding, the whole storage, or the global index space.
-/

namespace HaloMesh

/-- A subset of one axis of local storage. -/
inductive Domain where
  | logical
  | extended
  | all
  | boundaryLow
  | boundaryHigh
  | ghostLow
  | ghostHigh
  /-- The global index space. Its offset is the global position of the first owned index. -/
  | global
  deriving DecidableEq, Repr, Inhabited

namespace Domain

def every : List Domain :=
  [.logical, .extended, .all, .boundaryLow, .boundaryHigh, .ghostLow, .ghostHigh, .global]

def name : Domain → String
  | .logical => "logical"
  | .extended => "extended"
  | .all => "all"
  | .boundaryLow => "boundary_low"
  | .boundaryHigh => "boundary_high"
  | .ghostLow => "ghost_low"
  | .ghostHigh => "ghost_high"
  | .global => "global"

def ofName? (name : String) : Option Domain := every.find? (·.name == name)

def codec : Codec Domain := .constant every

structure Bounds where
  offset : Nat
  size : Nat
  deriving DecidableEq, Repr, Inhabited

def bounds (domain : Domain) (ic : IndexColoring) (axis : Nat) : Except Fault Bounds := do
  let (below, above) ← ic.ghosts axis
  let padBelow ← ic.boundaryLow axis
  let padAbove ← ic.boundaryHigh axis
  let owned ← ic.owned axis
  match domain with
  | .logical => return ⟨← Word.add below padBelow, owned⟩
  | .extended => return ⟨below, ← Word.add (← Word.add padBelow owned) padAbove⟩
  | .all => return ⟨0, ← fetch ic.extents axis⟩
  | .boundaryLow => return ⟨below, padBelow⟩
  | .boundaryHigh => return ⟨← Word.add (← Word.add below padBelow) owned, padAbove⟩
  | .ghostLow => return ⟨0, below⟩
  | .ghostHigh => return ⟨← Word.sub (← fetch ic.extents axis) above, above⟩
  | .global => return ⟨← fetch ic.offset axis, ← fetch ic.global axis⟩

/-- The indices of a domain on an axis, in local storage. For `global` they are the owned indices in
the global index space. -/
def range (domain : Domain) (ic : IndexColoring) (axis : Nat) : Except Fault SlotRange := do
  match domain with
  | .global =>
    let offset ← fetch ic.offset axis
    return ⟨offset, ← Word.add offset (← ic.owned axis)⟩
  | domain =>
    let bounds ← domain.bounds ic axis
    return ⟨bounds.offset, ← Word.add bounds.offset bounds.size⟩

end Domain

/-- The global index of a local storage index on an axis. Inside low padding it is negative, and
inside high padding past the global extent. -/
def IndexColoring.globalId (ic : IndexColoring) (axis slot : Nat) : Except Fault Int := do
  let low ← fetch ic.logical.low axis
  let here ← ic.localLogical axis
  let origin ← Signed.sub low (Signed.ofSize here.start)
  Signed.add origin (Signed.ofSize slot)

end HaloMesh
