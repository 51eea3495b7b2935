-- SUMMARY: What one rank does, as an interaction tree of posted requests, completions and log records.
import HaloMesh.Bytes
import HaloMesh.Word

/-!
# Programs

A rank posts requests to send or to receive byte messages, which return at once, and later waits for
their completion. A `Program` is the tree of these actions with a branch for every outcome, and it
says nothing about who answers: a group of ranks (`Comm/Group.lean`) or any other transport
(`Comm/Transport.lean`).
-/

namespace HaloMesh

/-- A request that a rank posts. -/
inductive Request where
  | send (peer tag : Nat) (payload : Bytes)
  /-- Receive a message of at most `length` bytes from the rank `peer`. -/
  | receive (peer tag length : Nat)
  deriving DecidableEq, Repr, Inhabited

inductive LogLevel where
  | error
  | debug
  | trace
  deriving DecidableEq, Repr, Inhabited

def LogLevel.name : LogLevel → String
  | .error => "ERROR"
  | .debug => "DEBUG"
  | .trace => "TRACE"

structure LogRecord where
  level : LogLevel
  text : String
  deriving DecidableEq, Repr, Inhabited

/-- What a rank does before it returns a result. -/
inductive Program (α : Type) where
  | done (result : α)
  | post (request : Request) (next : Program α)
  /-- Wait for a posted request, and go on with the message it yields. -/
  | await (request : Request) (next : Option Bytes → Program α)
  | log (record : LogRecord) (next : Program α)

namespace Program

/-! ## Sequencing -/

def bind {α β : Type} : Program α → (α → Program β) → Program β
  | .done a, k => k a
  | .post request next, k => .post request (next.bind k)
  | .await request next, k => .await request fun message => (next message).bind k
  | .log record next, k => .log record (next.bind k)

instance : Monad Program where
  pure := .done
  bind := Program.bind

theorem bind_eq {α β : Type} (p : Program α) (k : α → Program β) : (p >>= k) = p.bind k := rfl

theorem bind_done {α : Type} (p : Program α) : p.bind .done = p := by
  induction p with
  | done a => rfl
  | post request next ih => simp [bind, ih]
  | await request next ih => simp [bind, ih]
  | log record next ih => simp [bind, ih]

theorem bind_assoc {α β γ : Type} (p : Program α) (f : α → Program β) (g : β → Program γ) :
    (p.bind f).bind g = p.bind fun a => (f a).bind g := by
  induction p with
  | done a => rfl
  | post request next ih => simp [bind, ih]
  | await request next ih => simp [bind, ih]
  | log record next ih => simp [bind, ih]

/-! ## Single actions -/

def issue (request : Request) : Program Unit := .post request (.done ())

def complete (request : Request) : Program (Option Bytes) := .await request .done

def record (level : LogLevel) (text : String) : Program Unit := .log ⟨level, text⟩ (.done ())

def issueAll : List Request → Program Unit
  | [] => .done ()
  | request :: rest => .post request (issueAll rest)

/-- Wait for requests in order, and collect what they yield. -/
def completeAll : List Request → Program (List (Option Bytes))
  | [] => .done []
  | request :: rest =>
    .await request fun message => (completeAll rest).bind fun messages => .done (message :: messages)

end Program

/-! ## Programs that can fail -/

/-- The place of a rank in its group. -/
structure Member where
  rank : Nat
  size : Nat
  deriving DecidableEq, Repr, Inhabited

/-- The only rank of its group. -/
def Member.alone : Member := ⟨0, 1⟩

def Member.all (size : Nat) : List Member := (List.range size).map (⟨·, size⟩)

/-- The ranks of a new group, which take three words each. -/
def Member.world (size : Nat) : Except Fault (List Member) := do
  Word.reserve (24 * size)
  return Member.all size

/-- The other ranks of the group, in increasing order. -/
def Member.peers (me : Member) : List Nat := (List.range me.size).filter (· != me.rank)

/-- What a rank does, if it may fail. -/
abbrev Comm (α : Type) := ExceptT Failure Program α

/-- What a rank does with a state of its own, which survives a failure. -/
abbrev CommState (σ α : Type) := ExceptT Failure (StateT σ Program) α

instance {σ : Type} : MonadLift Comm (ExceptT Failure (StateT σ Program)) where
  monadLift x := ExceptT.mk fun state => Program.bind x.run fun result => .done (result, state)

namespace Comm

def report {α : Type} (error : MeshError) : Comm α := throw (.reported error)

def reportAny : Option MeshError → Comm Unit
  | some error => report error
  | none => pure ()

/-- Turn a failure into a result, so that the program can go on. -/
def attempt {α : Type} (x : Comm α) : Program (Except Failure α) := x.run

end Comm

/-- The tag `k` steps after another. Tags are counted modulo `2 ^ 16`. -/
def tagOffset (tag k : Nat) : Nat := (tag + k) % UInt16.size

end HaloMesh
