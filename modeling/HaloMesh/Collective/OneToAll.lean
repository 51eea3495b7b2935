-- SUMMARY: Rank 0 sends every rank a value of its own.
import HaloMesh.Collective.Counts
import HaloMesh.Collective.Packer
import HaloMesh.Loop

/-!
# One to all

Rank 0 computes one value per rank and sends each rank its own, as a length and the packed value. A
length of its own announces a value that cannot be packed.
-/

namespace HaloMesh

namespace OneToAll

def defaultTag : Nat := 0x0A11

/-- The messages that carry a packed value, or the lack of one. -/
def messages : Except CodecError Bytes → List Bytes
  | .ok data => [WireLength.encode data.length, data]
  | .error _ => [WireLength.encode WireLength.failed]

/-- Post the messages for rank `r`. The state holds what was posted and the first error. -/
def sendTo {α : Type} (packer : Packer α) (tag size : Nat) (value : Nat → Nat → Except Fault α)
    (r : Nat) (state : List Request × Option MeshError) :
    Comm (List Request × Option MeshError) := do
  let packed := packer.pack (← value r size)
  let requests := (messages packed).map (Request.send r tag)
  match packed with
  | .ok _ =>
    Program.issueAll requests
    return (state.1 ++ requests, state.2)
  | .error cause =>
    let error := MeshError.serialization cause
    Program.record .error
      s!"one_to_allv: cannot pack the value for rank {r}: {error.message}"
    Program.issueAll requests
    return (state.1 ++ requests, firstError state.2 error)

/-- What rank 0 does. The number of messages, two for every other rank, has to be a size. -/
def root {α : Type} (packer : Packer α) (tag size : Nat) (value : Nat → Nat → Except Fault α) :
    Comm α := do
  let _ ← Word.mul 2 (size - 1)
  let (requests, error) ←
    countFrom (sendTo packer tag size value) (size - 1) 1 ([], none)
  let _ ← Program.completeAll requests
  Comm.reportAny error
  value 0 size

/-- Receive a message of at most `length` bytes from rank 0, or report why there is none. -/
def receive (tag length : Nat) (missing : TrafficError) : Comm Bytes := do
  let request := Request.receive 0 tag length
  Program.issue request
  match ← Program.complete request with
  | some message => return message
  | none => Comm.report (.communication 0 missing)

def leaf {α : Type} (packer : Packer α) (tag rank : Nat) : Comm α := do
  let announced ← receive tag WireLength.size .missingLength
  let length ← (WireLength.decode announced).mapError (MeshError.communication 0)
  if length = WireLength.failed then
    Comm.report (.communication 0 (.rootFailed rank))
  Word.reserve length
  let message ← receive tag length (.missingPayload length)
  (expectLength message.length length).mapError (MeshError.communication 0)
  reportCodec (packer.unpack message)

end OneToAll

/-- Every rank receives `value rank size` as rank 0 computes it. -/
def oneToAll {α : Type} (packer : Packer α) (me : Member) (tag : Nat)
    (value : Nat → Nat → Except Fault α) : Comm α :=
  if me.rank = 0 then OneToAll.root packer tag me.size value
  else OneToAll.leaf packer tag me.rank

end HaloMesh
