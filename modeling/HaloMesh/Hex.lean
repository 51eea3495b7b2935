-- SUMMARY: Hexadecimal text of numbers and byte strings.
import HaloMesh.LittleEndian

namespace HaloMesh.Hex

/-- A number in hexadecimal, with zeros in front up to `width` digits. -/
def ofNumber (width n : Nat) : String :=
  let digits := Nat.toDigits 16 n
  String.ofList (List.replicate (width - digits.length) '0' ++ digits)

def ofBytes (bytes : Bytes) : String := String.join (bytes.map fun b => ofNumber 2 b.toNat)

def digit? (c : Char) : Option Nat :=
  if '0' ≤ c ∧ c ≤ '9' then some (c.toNat - '0'.toNat)
  else if 'a' ≤ c ∧ c ≤ 'f' then some (c.toNat - 'a'.toNat + 10)
  else if 'A' ≤ c ∧ c ≤ 'F' then some (c.toNat - 'A'.toNat + 10)
  else none

/-- The bytes that pairs of digits stand for. -/
def bytesOfDigits? : List Char → Option Bytes
  | [] => some []
  | [_] => none
  | high :: low :: rest => do
    let byte := UInt8.ofNat (16 * (← digit? high) + (← digit? low))
    return byte :: (← bytesOfDigits? rest)

def bytes? (text : String) : Option Bytes := bytesOfDigits? text.toList

end HaloMesh.Hex
