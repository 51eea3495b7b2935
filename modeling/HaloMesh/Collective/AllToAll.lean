-- SUMMARY: Every rank sends a value, or nothing, to every rank.
import HaloMesh.Collective.Counts
import HaloMesh.Collective.Packer

/-!
# All to all

Every rank announces to every rank the packed length of the value it has for it, zero if there is
none. A frame of the announced size is sent for every value, also if the value cannot be packed, and
a rank reports its first error only after every request is completed.
-/

namespace HaloMesh

/-- The values that a rank has for the others. -/
structure Outgoing where
  /-- The packed length of the value for a rank, zero if there is none. -/
  count : Nat → Nat
  /-- The packed value for a rank. It is asked for only where the count is not zero. -/
  packed : Nat → Except CodecError Bytes

namespace Outgoing

/-- The values of a list, one for each rank, of which some may be missing. -/
def ofItems {α : Type} (packer : Packer α) (items : List (Option α)) :
    Except CodecError Outgoing := do
  let lengths ← items.mapM fun
    | none => return 0
    | some a => packer.packedLength a
  return {
    count := fun dest => lengths.getD dest 0
    packed := fun dest =>
      match items.getD dest none with
      | some a => packer.pack a
      | none => .ok [] }

end Outgoing

namespace AllToAll

/-- The tag of the counts. The frames use the tag after it. -/
def defaultTag : Nat := 0x0A20

/-! ## Sending -/

def outgoingCounts (me : Member) (out : Outgoing) : Except Fault (List Nat) := do
  Word.reserve (8 * me.size)
  return (List.range me.size).map out.count

/-- The packed value for `dest`, if its length is the one that was announced. -/
def packedFor (out : Outgoing) (dest count : Nat) : Except MeshError Bytes := do
  let data ← reportCodec (out.packed dest)
  if data.length = count then return data
  else throw (.communication dest (.announcedMismatch count data.length))

structure Sent where
  requests : List Request
  own : Option Bytes
  error : Option MeshError

/-- Post a frame, or keep it if it is for the own rank. -/
def Sent.deliver (sent : Sent) (me : Member) (tag dest : Nat) (frame : Bytes) : Comm Sent := do
  if dest = me.rank then
    return { sent with own := some frame }
  else
    let request := Request.send dest tag frame
    Program.issue request
    return { sent with requests := sent.requests ++ [request] }

def sendTo (me : Member) (tag : Nat) (out : Outgoing) (sent : Sent) :
    (dest : Nat × Nat) → Comm Sent
  | (count, dest) =>
    if count = 0 then return sent
    else
      match packedFor out dest count with
      | .ok data => sent.deliver me tag dest (Frame.wrap data)
      | .error error => do
        Program.record .error
          s!"all_to_allv: rank {me.rank} cannot pack the value for rank {dest}: {error.message}"
        let frame ← Frame.failed count
        ({ sent with error := firstError sent.error error }).deliver me tag dest frame

/-! ## Receiving -/

def announced (me : Member) (incoming : List Nat) : List (Nat × Nat) :=
  incoming.zipIdx.filter fun (count, source) => source != me.rank && count > 0

def postReceive (tag : Nat) : (source : Nat × Nat) → Comm Request
  | (count, source) => do
    let size ← Frame.sizeFor count
    let request := Request.receive source tag size
    Program.issue request
    return request

def payloadFromReply (source count : Nat) : Option Bytes → Except Failure Bytes
  | none => .error (.reported (.communication source (.missingFrame count source)))
  | some frame => do
    let opened ← Frame.unwrap frame count
    opened.mapError fun cause => .reported (.communication source cause)

/-- Wait for the frame of a rank that announced a value. The state holds the payloads received and
the first error. -/
def awaitFrame (state : List (Nat × Bytes) × Option MeshError) :
    (source : (Nat × Nat) × Request) → Comm (List (Nat × Bytes) × Option MeshError)
  | ((count, source), request) => do
    let reply ← Program.complete request
    match payloadFromReply source count reply with
    | .ok payload => return (state.1 ++ [(source, payload)], state.2)
    | .error (.reported error) => return (state.1, firstError state.2 error)
    | .error (.fault cause) => throw (.fault cause)

/-- Put the own payload in its place among those received, which are in the order of their ranks. -/
def insertOwn (rank : Nat) (payload : Bytes) : List (Nat × Bytes) → List (Nat × Bytes)
  | [] => [(rank, payload)]
  | (r, p) :: rest =>
    if r < rank then (r, p) :: insertOwn rank payload rest else (rank, payload) :: (r, p) :: rest

def unpackAll {α : Type} (unpack : Bytes → Except CodecError α) (payloads : List (Nat × Bytes)) :
    Except MeshError (List (Nat × α)) :=
  payloads.mapM fun (source, payload) => do
    return (source, ← reportCodec (unpack payload))

end AllToAll

open AllToAll in
/-- Every rank sends its outgoing values. The result lists the values for this rank with their
sources, in the order of the sources. -/
def allToAll {α : Type} (unpack : Bytes → Except CodecError α) (me : Member) (tag : Nat)
    (out : Outgoing) : Comm (List (Nat × α)) := do
  let frameTag := tagOffset tag 1
  let counts ← outgoingCounts me out
  let incoming ← exchangeCounts me tag counts
  let sources := announced me incoming
  let receives ← sources.mapM (postReceive frameTag)
  let sent ← counts.zipIdx.foldlM (sendTo me frameTag out) ⟨[], none, none⟩
  let (received, error) ← (sources.zip receives).foldlM awaitFrame ([], sent.error)
  let _ ← Program.completeAll sent.requests
  Comm.reportAny error
  let payloads :=
    match sent.own with
    | some frame => insertOwn me.rank frame.tail received
    | none => received
  unpackAll unpack payloads

end HaloMesh
