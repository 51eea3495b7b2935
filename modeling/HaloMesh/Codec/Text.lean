-- SUMMARY: The first place at which bytes stop being UTF-8 text.
import HaloMesh.LittleEndian
import HaloMesh.Codec.Error

/-!
# Text defects

An ill-formed sequence is as long as the bytes of it that could still have begun a character; a
sequence that the input cuts off has no length.
-/

namespace HaloMesh

def isContinuation (b : UInt8) : Bool := 0x80 ≤ b && b ≤ 0xBF

/-- The bytes that may follow the first byte of a character of three bytes. -/
def secondOfThree (first second : UInt8) : Bool :=
  if first == 0xE0 then 0xA0 ≤ second && second ≤ 0xBF
  else if first == 0xED then 0x80 ≤ second && second ≤ 0x9F
  else isContinuation second

/-- The bytes that may follow the first byte of a character of four bytes. -/
def secondOfFour (first second : UInt8) : Bool :=
  if first == 0xF0 then 0x90 ≤ second && second ≤ 0xBF
  else if first == 0xF4 then 0x80 ≤ second && second ≤ 0x8F
  else isContinuation second

/-- The first defect of bytes that stand at `index` of a text. -/
def textDefectFrom (index : Nat) : Bytes → Option TextDefect
  | [] => none
  | first :: rest =>
    if first < 0x80 then textDefectFrom (index + 1) rest
    else if first < 0xC2 then some ⟨index, some 1⟩
    else if first < 0xE0 then
      match rest with
      | [] => some ⟨index, none⟩
      | second :: rest =>
        if isContinuation second then textDefectFrom (index + 2) rest
        else some ⟨index, some 1⟩
    else if first < 0xF0 then
      match rest with
      | [] => some ⟨index, none⟩
      | [second] => if secondOfThree first second then some ⟨index, none⟩ else some ⟨index, some 1⟩
      | second :: third :: rest =>
        if !secondOfThree first second then some ⟨index, some 1⟩
        else if isContinuation third then textDefectFrom (index + 3) rest
        else some ⟨index, some 2⟩
    else if first < 0xF5 then
      match rest with
      | [] => some ⟨index, none⟩
      | [second] => if secondOfFour first second then some ⟨index, none⟩ else some ⟨index, some 1⟩
      | [second, third] =>
        if !secondOfFour first second then some ⟨index, some 1⟩
        else if isContinuation third then some ⟨index, none⟩
        else some ⟨index, some 2⟩
      | second :: third :: fourth :: rest =>
        if !secondOfFour first second then some ⟨index, some 1⟩
        else if !isContinuation third then some ⟨index, some 2⟩
        else if isContinuation fourth then textDefectFrom (index + 4) rest
        else some ⟨index, some 3⟩
    else some ⟨index, some 1⟩

def textDefect (bytes : Bytes) : Option TextDefect := textDefectFrom 0 bytes

end HaloMesh
