-- SUMMARY: Splitting a number of processes over the axes of a mesh, prime factor by prime factor.
import HaloMesh.Word

/-!
# Factoring processes

The prime factors of the number of processes are handed out, largest first, each to the axis that has
the most indices per color so far. Of several such axes the first one gets the factor.
-/

namespace HaloMesh

/-- The prime factors of `n` by trial division with the divisors from `p` on, in increasing order.
`n` must have no prime factor below `p`. -/
def primeFactorsFrom (n p : Nat) (h : 2 ≤ p) : Except Fault (List Nat) := do
  let square ← Word.mul p p
  if hle : p * p ≤ n then
    if n % p = 0 then
      let rest ← primeFactorsFrom (n / p) p h
      return p :: rest
    else primeFactorsFrom n (p + 1) (by omega)
  else if n > 1 then return [n] else return []
termination_by (n, n - p)
decreasing_by
  · have hp : 0 < n := Nat.lt_of_lt_of_le (Nat.mul_pos (by omega) (by omega)) hle
    exact Prod.Lex.left _ _ (Nat.div_lt_self hp (by omega))
  · have htwice : p * 2 ≤ p * p := Nat.mul_le_mul_left p h
    have hlt : p < n := by omega
    exact Prod.Lex.right _ (by omega)

def primeFactors (n : Nat) : Except Fault (List Nat) := primeFactorsFrom n 2 (Nat.le_refl 2)

/-- Compare two axes by the indices per color that they have so far, cross-multiplied: whether `a` has
strictly more than `b`. -/
def denser (extents colors : List Nat) (a b : Nat) : Except Fault Bool := do
  let left ← Word.mul (← fetch extents a) (← fetch colors b)
  let right ← Word.mul (← fetch extents b) (← fetch colors a)
  return left > right

/-- Walk down from axis `a - 1` to axis 0, keeping the axis with the most indices per color. Where two
axes have equally many, the lower one is kept. -/
def densestBelow (extents colors : List Nat) (best : Nat) : (a : Nat) → Except Fault Nat
  | 0 => .ok best
  | a + 1 => do
    if ← denser extents colors best a then densestBelow extents colors best a
    else densestBelow extents colors a a

/-- The first axis that has the most indices per color. -/
def densestAxis (extents colors : List Nat) : Except Fault Nat :=
  densestBelow extents colors (extents.length - 1) (extents.length - 1)

def giveFactor (extents colors : List Nat) (factor : Nat) : Except Fault (List Nat) := do
  let axis ← densestAxis extents colors
  return colors.set axis (← Word.mul (← fetch colors axis) factor)

/-- Split a number of processes over axes of given extents. -/
def factorColors (processes : Nat) (extents : List Nat) : Except Fault (List Nat) := do
  let colors := List.replicate extents.length 1
  if extents.isEmpty then return colors
  let factors ← primeFactors processes
  factors.reverse.foldlM (giveFactor extents) colors

end HaloMesh
