-- SUMMARY: The four access modes of a field, with their two-bit codes.

/-!
# Privileges

A task declares how it uses a field by one of four modes. Bit 0 of the code of a mode grants
reading and bit 1 grants writing.
-/

namespace HaloMesh

/-- How a task uses one part of a field. -/
inductive Privilege where
  /-- No access: bringing the data up to date is left to the next access. -/
  | na
  /-- Read only: the data are brought up to date and not written. -/
  | ro
  /-- Write only: the data are overwritten and not brought up to date first. -/
  | wo
  /-- Read and write: the data are brought up to date and may be written. -/
  | rw
  deriving DecidableEq, Repr, Inhabited

namespace Privilege

def code : Privilege → Nat
  | .na => 0
  | .ro => 1
  | .wo => 2
  | .rw => 3

/-- The mode whose code is the low two bits of a number. -/
def ofCode (n : Nat) : Privilege :=
  match n % 4 with
  | 0 => .na
  | 1 => .ro
  | 2 => .wo
  | _ => .rw

def reads : Privilege → Bool
  | .ro | .rw => true
  | .na | .wo => false

def writes : Privilege → Bool
  | .wo | .rw => true
  | .na | .ro => false

def name : Privilege → String
  | .na => "na"
  | .ro => "ro"
  | .wo => "wo"
  | .rw => "rw"

def label : Privilege → String
  | .na => "Na"
  | .ro => "Ro"
  | .wo => "Wo"
  | .rw => "Rw"

def ofName? : String → Option Privilege
  | "na" => some .na
  | "ro" => some .ro
  | "wo" => some .wo
  | "rw" => some .rw
  | _ => none

theorem code_lt (m : Privilege) : m.code < 4 := by cases m <;> decide

theorem ofCode_add_mul (m : Privilege) (k : Nat) : ofCode (4 * k + m.code) = m := by
  have h : (4 * k + m.code) % 4 = m.code := by
    rw [Nat.mul_add_mod, Nat.mod_eq_of_lt m.code_lt]
  unfold ofCode
  rw [h]
  cases m <;> rfl

theorem code_ofCode (n : Nat) : (ofCode n).code = n % 4 := by
  have hlt : n % 4 < 4 := Nat.mod_lt n (by decide)
  unfold ofCode
  generalize n % 4 = k at hlt ⊢
  match k, hlt with
  | 0, _ | 1, _ | 2, _ | 3, _ => rfl

end Privilege

end HaloMesh
