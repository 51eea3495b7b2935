-- SUMMARY: The exchange of one count between every two ranks.
import HaloMesh.Collective.Frame
import HaloMesh.Comm.Program

/-!
# Count exchange

Every rank sends one count to every other rank. Every request is completed before an error is
reported, so that a rank that fails leaves nothing behind for the next collective. The lists of posted
requests are not reserved here, since the room that a request takes depends on who answers it.
-/

namespace HaloMesh

def firstError (earlier : Option MeshError) (later : MeshError) : Option MeshError :=
  earlier.or (some later)

def countFromReply (peer : Nat) : Option Bytes → Except MeshError Nat
  | none => .error (.communication peer (.missingCount peer))
  | some message => (WireLength.decode message).mapError (.communication peer)

/-- The replies of the peers as counts, zero where there is none, and the first error among them. -/
def countsFromReplies : List (Nat × Option Bytes) → List (Nat × Nat) × Option MeshError
  | [] => ([], none)
  | (peer, reply) :: rest =>
    let (counts, error) := countsFromReplies rest
    match countFromReply peer reply with
    | .ok n => ((peer, n) :: counts, error)
    | .error e => (counts, some e)

/-- Exchange counts with all ranks. Entry `r` of `counts` goes to rank `r`, and entry `r` of the
result came from rank `r`. -/
def exchangeCounts (me : Member) (tag : Nat) (counts : List Nat) : Comm (List Nat) := do
  if counts.length ≠ me.size then
    throw (.reported (.invariant (.countEntries me.size counts.length)))
  let receives := me.peers.map fun peer => Request.receive peer tag WireLength.size
  Program.issueAll receives
  let sends := me.peers.map fun peer =>
    Request.send peer tag (WireLength.encode (counts.getD peer 0))
  Program.issueAll sends
  let own ← fetch counts me.rank
  let replies ← Program.completeAll receives
  let _ ← Program.completeAll sends
  let (received, error) := countsFromReplies (me.peers.zip replies)
  Comm.reportAny error
  return (List.range me.size).map fun r =>
    if r = me.rank then own else (received.lookup r).getD 0

end HaloMesh
