-- SUMMARY: Numbers as bytes, least significant byte first.

namespace HaloMesh

/-- A message, or the storage of a field. -/
abbrev Bytes := List UInt8

namespace LittleEndian

/-- The low `width` bytes of a number, least significant first. -/
def encode : Nat → Nat → Bytes
  | 0, _ => []
  | width + 1, n => UInt8.ofNat n :: encode width (n / 256)

/-- The number that bytes stand for, least significant first. -/
def value : Bytes → Nat
  | [] => 0
  | b :: bytes => b.toNat + 256 * value bytes

@[simp] theorem length_encode (width n : Nat) : (encode width n).length = width := by
  induction width generalizing n with
  | zero => rfl
  | succ width ih => simp [encode, ih]

end LittleEndian

end HaloMesh
