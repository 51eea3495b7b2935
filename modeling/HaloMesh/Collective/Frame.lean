-- SUMMARY: The records that collectives put on the wire: lengths, and payload frames behind a status byte.
import HaloMesh.Bytes
import HaloMesh.Word

/-!
# Frames

A payload travels in a frame behind a status byte. A sender that cannot pack its payload still sends
a frame of the announced size, so no receiver waits for a message that is not sent.
-/

namespace HaloMesh

def expectLength (actual expected : Nat) : Except TrafficError Unit :=
  if actual = expected then .ok () else .error (.wrongLength expected actual)

namespace WireLength

abbrev size : Nat := 8

/-- Sent in the place of a length by a root that could not pack the value. -/
abbrev failed : Nat := 0xffffffffffffffff

def encode (n : Nat) : Bytes := LittleEndian.encode size n

def decode (message : Bytes) : Except TrafficError Nat := do
  expectLength message.length size
  return LittleEndian.value message

end WireLength

namespace Frame

/-- The status of a frame that holds its payload. -/
abbrev okStatus : UInt8 := 0

/-- The status of a frame that stands for a payload that could not be packed. -/
abbrev failedStatus : UInt8 := 1

def wrap (payload : Bytes) : Bytes := okStatus :: payload

/-- The size of the frame of a payload of `n` bytes, which must be a size a buffer can have. -/
def sizeFor (n : Nat) : Except Fault Nat := do
  let total ← Word.add n 1
  Word.reserve total
  return total

/-- The frame that stands for a payload announced as `n` bytes. -/
def failed (n : Nat) : Except Fault Bytes := do
  let _ ← sizeFor n
  return failedStatus :: Bytes.zeros n

def payload : Bytes → Except TrafficError Bytes
  | [] => .error (.wrongLength 1 0)
  | status :: payload =>
    if status = okStatus then .ok payload
    else if status = failedStatus then .error .senderFailed
    else .error (.badStatus status.toNat)

/-- The payload of a frame that was announced as `n` bytes. -/
def unwrap (frame : Bytes) (n : Nat) : Except Fault (Except TrafficError Bytes) := do
  let expected ← Word.add n 1
  return do
    expectLength frame.length expected
    payload frame

end Frame

end HaloMesh
