-- SUMMARY: Filling the ghost slots of a field from the colors that own their values.
import HaloMesh.CopyPlan.Verify
import HaloMesh.Logged

/-!
# Ghost refresh

A color posts one receive per source, sends every destination its values in one message, copies the
runs that wrap onto the color itself, and then writes each message that arrived to its runs. A source
whose message is missing or has another length leaves its runs as they were, and the first such
source is reported after every request is completed.
-/

namespace HaloMesh

namespace Run

/-- Where the bytes from which a run takes its values start and stop. -/
def sourceBounds (r : Run) (typeSize : Nat) : Except Fault (Nat × Nat) := do
  let start ← Word.mul r.src typeSize
  let stop ← Word.mul (← Word.add r.src r.length) typeSize
  return (start, stop)

/-- The bytes from which a run takes its values. -/
def sourceBytes (r : Run) (typeSize : Nat) (data : Bytes) : Except Fault Bytes := do
  let (start, stop) ← r.sourceBounds typeSize
  data.slice start stop

def gather (typeSize : Nat) (data : Bytes) (runs : List Run) : Except Fault Bytes := do
  let total ← Word.mul (← Summary.ofRuns runs).elements typeSize
  Word.reserve total
  return (← runs.mapM (·.sourceBytes typeSize data)).flatten

/-- Copy a run within the storage of one color. Values past its end are told by where they stop. -/
def copyWithin (typeSize : Nat) (data : Bytes) (r : Run) : Except Fault Bytes := do
  let (start, stop) ← r.sourceBounds typeSize
  let dest ← Word.mul r.dest typeSize
  match data.slice? start stop with
  | some values => return data.overwrite dest values
  | none => throw (.sliceStop data.length stop)

/-- Write values to the ghost slots of several runs, one after the other. -/
def scatter (typeSize : Nat) : List Run → Bytes → Bytes → Bytes
  | [], _, data => data
  | r :: rest, values, data =>
    let size := r.length * typeSize
    scatter typeSize rest (values.drop size)
      (data.overwrite (r.dest * typeSize) (values.take size))

end Run

namespace CopyPlan

/-- The storage of a field while its ghosts are refreshed. -/
abbrev Exchange (α : Type) := CommState Bytes α

def remoteSources (p : CopyPlan) : RunTable := p.recv.filter (·.1 != p.color)

def remoteDestinations (p : CopyPlan) : RunTable := p.send.filter (·.1 != p.color)

def postReceive (p : CopyPlan) (typeSize : Nat) : (source : Nat × List Run) → Exchange Request
  | (source, runs) => do
    let length ← Word.mul (← Summary.ofRuns runs).elements typeSize
    Word.reserve length
    let request := Request.receive source p.tag length
    Program.issue request
    return request

def postSend (p : CopyPlan) (typeSize : Nat) : (dest : Nat × List Run) → Exchange Request
  | (dest, runs) => do
    let request := Request.send dest p.tag (← Run.gather typeSize (← get) runs)
    Program.issue request
    return request

/-- Copy a run that wraps onto the color itself. -/
def copyOwn (typeSize : Nat) (r : Run) : Exchange Unit := do
  set (← Run.copyWithin typeSize (← get) r)

/-- The message of a source, if it has the expected length. -/
def messageFrom (source length : Nat) : Option Bytes → Except MeshError Bytes
  | none => .error (.communication source .missingGhosts)
  | some message => do
    (expectLength message.length length).mapError (.communication source)
    return message

/-- Wait for the message of a source and write it to the ghost slots of its runs. The state holds
the first error. -/
def awaitSource (typeSize : Nat) (error : Option MeshError) :
    (source : (Nat × List Run) × Request) → Exchange (Option MeshError)
  | ((source, runs), request) => do
    let reply ← Program.complete request
    match messageFrom source (Run.totalLength runs * typeSize) reply with
    | .ok message =>
      modify (Run.scatter typeSize runs message)
      return error
    | .error e => return firstError error e

def exchange (p : CopyPlan) (typeSize : Nat) : Exchange Unit := do
  let receives ← p.remoteSources.mapM (p.postReceive typeSize)
  let sends ← p.remoteDestinations.mapM (p.postSend typeSize)
  (p.recv.runsOf p.color).forM (copyOwn typeSize)
  let error ← (p.remoteSources.zip receives).foldlM (awaitSource typeSize) none
  let _ ← Program.completeAll sends
  liftM (Comm.reportAny error)

/-- Check that a region is the storage that the plan was made for. -/
def checkRegion (p : CopyPlan) (region : Region) : Except MeshError Unit :=
  if region.color = p.color ∧ region.length = p.slots then .ok ()
  else .error (.invariant (.foreignRegion p.color p.slots region.color region.length))

/-- Run an exchange on the bytes of a field of the region. What it changed stays changed if it
fails. -/
def onField (info : FieldInfo) (x : Exchange Unit) : CommState Region Unit := do
  let data ← (← get).bytes info
  let (result, data) ← x.run.run data
  modify (·.setBytes info.field data)
  liftM result

/-- Fill the ghost slots of a field from the colors that own their values. All colors of the index
space take part. -/
def refresh (p : CopyPlan) (info : FieldInfo) : CommState Region Unit := do
  p.checkRegion (← get)
  Region.ensure info
  Program.record .trace
    s!"ghost copy space={p.indexSpace} fid={info.field} color={p.color}: {p.ghostLength} slots"
  onField info (p.exchange info.typeSize)

end CopyPlan

end HaloMesh
