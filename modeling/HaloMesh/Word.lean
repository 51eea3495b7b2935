-- SUMMARY: Sizes and positions as natural numbers below `2 ^ 64`, with arithmetic that faults outside that range.
import HaloMesh.Fault

/-!
# Words

Sizes are natural numbers below `2 ^ 64`, and global coordinates integers from `-2 ^ 63` on and
below `2 ^ 63`. The operations here compute in `Nat` and `Int` and fault as soon as a result leaves
its range, so a proof that the numbers stay small turns each of them into the plain operation.
-/

namespace HaloMesh

/-! ## Sizes -/

namespace Word

/-- The number of values that a size can take. -/
abbrev limit : Nat := UInt64.size

def add (a b : Nat) : Except Fault Nat :=
  if a + b < limit then .ok (a + b) else .error (.overflow .add)

def sub (a b : Nat) : Except Fault Nat :=
  if b ≤ a then .ok (a - b) else .error (.overflow .subtract)

def mul (a b : Nat) : Except Fault Nat :=
  if a * b < limit then .ok (a * b) else .error (.overflow .multiply)

/-- The quotient of two sizes, rounded down. -/
def div (a b : Nat) : Except Fault Nat :=
  if b = 0 then .error .divideByZero else .ok (a / b)

def mod (a b : Nat) : Except Fault Nat :=
  if b = 0 then .error .remainderByZero else .ok (a % b)

/-- The sum of a list, taken from the left so that the first partial sum too large faults. -/
def sum (xs : List Nat) : Except Fault Nat :=
  xs.foldlM add 0

/-- The product of a list, taken from the left so that the first partial product too large faults. -/
def product (xs : List Nat) : Except Fault Nat :=
  xs.foldlM mul 1

theorem add_of_lt {a b : Nat} (h : a + b < limit) : add a b = .ok (a + b) := if_pos h

theorem sub_of_le {a b : Nat} (h : b ≤ a) : sub a b = .ok (a - b) := if_pos h

theorem mul_of_lt {a b : Nat} (h : a * b < limit) : mul a b = .ok (a * b) := if_pos h

theorem div_of_pos {a b : Nat} (h : 0 < b) : div a b = .ok (a / b) :=
  if_neg (Nat.pos_iff_ne_zero.mp h)

theorem mod_of_pos {a b : Nat} (h : 0 < b) : mod a b = .ok (a % b) :=
  if_neg (Nat.pos_iff_ne_zero.mp h)

theorem add_eq_ok_iff {a b c : Nat} : add a b = .ok c ↔ a + b < limit ∧ c = a + b := by
  unfold add; split <;> rename_i h <;> simp [h, eq_comm]

theorem sub_eq_ok_iff {a b c : Nat} : sub a b = .ok c ↔ b ≤ a ∧ c = a - b := by
  unfold sub; split <;> rename_i h <;> simp [h, eq_comm]

theorem mul_eq_ok_iff {a b c : Nat} : mul a b = .ok c ↔ a * b < limit ∧ c = a * b := by
  unfold mul; split <;> rename_i h <;> simp [h, eq_comm]

theorem mod_eq_ok_iff {a b c : Nat} : mod a b = .ok c ↔ b ≠ 0 ∧ c = a % b := by
  unfold mod; split <;> simp_all [eq_comm]

/-- The largest number of bytes that one buffer or list can have. -/
abbrev bufferLimit : Nat := 0x7fffffffffffffff

/-- Ask for a buffer or list of `n` bytes. -/
def reserve (n : Nat) : Except Fault Unit :=
  if n ≤ bufferLimit then .ok () else .error .capacity

theorem reserve_eq_ok_iff {n : Nat} : reserve n = .ok () ↔ n ≤ bufferLimit := by
  unfold reserve; split <;> simp_all

end Word

/-! ## Global coordinates -/

namespace Signed

/-- Whether an integer is a global coordinate. -/
def InRange (z : Int) : Prop := -0x8000000000000000 ≤ z ∧ z < 0x8000000000000000

instance (z : Int) : Decidable (InRange z) := inferInstanceAs (Decidable (_ ∧ _))

def sub (a b : Int) : Except Fault Int :=
  if InRange (a - b) then .ok (a - b) else .error (.overflow .subtract)

def add (a b : Int) : Except Fault Int :=
  if InRange (a + b) then .ok (a + b) else .error (.overflow .add)

/-- The coordinate with the residue of a size modulo `2 ^ 64`. -/
def ofSize (n : Nat) : Int := Int.bmod n UInt64.size

/-- The size with the residue of a coordinate modulo `2 ^ 64`. -/
def toSize (z : Int) : Nat := (z % UInt64.size).toNat

theorem sub_eq_ok_iff {a b c : Int} : sub a b = .ok c ↔ InRange (a - b) ∧ c = a - b := by
  unfold sub; split <;> rename_i h <;> simp [h, eq_comm]

theorem add_eq_ok_iff {a b c : Int} : add a b = .ok c ↔ InRange (a + b) ∧ c = a + b := by
  unfold add; split <;> simp_all [eq_comm]

theorem ofSize_of_lt {n : Nat} (h : n < 0x8000000000000000) : ofSize n = n := by
  unfold ofSize UInt64.size
  rw [Int.bmod_def]
  omega

theorem toSize_of_nonneg {z : Int} (h : 0 ≤ z) (h' : z < 0x10000000000000000) : toSize z = z.toNat :=
  congrArg Int.toNat (Int.emod_eq_of_lt h h')

end Signed

end HaloMesh
