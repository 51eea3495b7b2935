-- SUMMARY: Running one rank's program against an arbitrary transport, with a history of all events.
import HaloMesh.Comm.Program

/-!
# Transports

A transport decides what each awaited receive yields, and may take everything that happened before
into account. A program that does well over every transport does well whatever the other ranks and
the network do.
-/

namespace HaloMesh

/-- Something that happened while a program ran. -/
inductive Event where
  | posted (request : Request)
  /-- A request was waited for, and yielded a message or nothing. -/
  | completed (request : Request) (message : Option Bytes)
  | logged (record : LogRecord)
  deriving DecidableEq, Repr, Inhabited

/-- The events so far, the latest first. -/
abbrev History := List Event

/-- What a receive from a rank under a tag yields, given what happened before. -/
abbrev Transport := History → (peer tag length : Nat) → Option Bytes

namespace History

def sent (h : History) : List (Nat × Nat × Bytes) :=
  h.reverse.filterMap fun
    | .posted (.send peer tag payload) => some (peer, tag, payload)
    | _ => none

def records (h : History) : List LogRecord :=
  h.reverse.filterMap fun
    | .logged record => some record
    | _ => none

/-- How many receives from a rank under a tag were waited for. -/
def receiveCount (h : History) (peer tag : Nat) : Nat :=
  h.countP fun
    | .completed (.receive p t _) _ => p == peer && t == tag
    | _ => false

end History

namespace Program

/-- What a request yields over a transport. A send yields no message. -/
def outcome (transport : Transport) (h : History) : Request → Option Bytes
  | .send .. => none
  | .receive peer tag length => transport h peer tag length

def runOver {α : Type} (transport : Transport) : Program α → History → α × History
  | .done a, h => (a, h)
  | .post request next, h => next.runOver transport (.posted request :: h)
  | .await request next, h =>
    let message := outcome transport h request
    (next message).runOver transport (.completed request message :: h)
  | .log record next, h => next.runOver transport (.logged record :: h)

/-- Running a sequence is running its first part and then the rest on the history it leaves. -/
theorem runOver_bind {α β : Type} (transport : Transport) (p : Program α) (k : α → Program β)
    (h : History) :
    (p.bind k).runOver transport h =
      (k (p.runOver transport h).1).runOver transport (p.runOver transport h).2 := by
  induction p generalizing h with
  | done a => rfl
  | post request next ih => exact ih _
  | await request next ih => exact ih _ _
  | log record next ih => exact ih _

end Program

/-! ## Particular transports -/

/-- The transport of a group of one rank, where nothing ever arrives. -/
def Transport.silent : Transport := fun _ _ _ _ => none

/-- A message that waits for a receive, or the lack of one. -/
structure Delivery where
  source : Nat
  tag : Nat
  message : Option Bytes
  deriving DecidableEq, Repr, Inhabited

/-- The transport that hands out given deliveries, in order for each source and tag, and cuts every
message to the length that the receive allows. -/
def Transport.ofInbox (inbox : List Delivery) : Transport := fun h peer tag length =>
  let queue := inbox.filter fun d => d.source == peer && d.tag == tag
  match queue[h.receiveCount peer tag]? with
  | some d => d.message.map (·.take length)
  | none => none

end HaloMesh
