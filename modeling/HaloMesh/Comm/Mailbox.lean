-- SUMMARY: The mailbox of a group: one queue of messages for each source, destination and tag.
import HaloMesh.LittleEndian

/-!
# Mailboxes

Messages between the same ranks under the same tag arrive in the order they were sent, and nothing
else is promised.
-/

namespace HaloMesh

/-- Whose messages a queue holds. -/
structure Channel where
  source : Nat
  dest : Nat
  tag : Nat
  deriving DecidableEq, Repr, Inhabited

/-- The messages under way, listed by channel. -/
structure Mailbox where
  queues : List (Channel × List Bytes) := []
  deriving DecidableEq, Repr, Inhabited

namespace Mailbox

def empty : Mailbox := {}

/-- The queue of a channel, the oldest message first. -/
def queue (m : Mailbox) (channel : Channel) : List Bytes :=
  (m.queues.lookup channel).getD []

/-- Put a queue in the place of the one of the same channel, or after all others. -/
def replace (channel : Channel) (messages : List Bytes) :
    List (Channel × List Bytes) → List (Channel × List Bytes)
  | [] => [(channel, messages)]
  | (c, q) :: rest =>
    if c = channel then (channel, messages) :: rest else (c, q) :: replace channel messages rest

def setQueue (m : Mailbox) (channel : Channel) (messages : List Bytes) : Mailbox :=
  ⟨replace channel messages m.queues⟩

/-- Add a message at the end of the queue of its channel. -/
def push (m : Mailbox) (channel : Channel) (message : Bytes) : Mailbox :=
  m.setQueue channel (m.queue channel ++ [message])

/-- Take the oldest message of a channel. -/
def pop? (m : Mailbox) (channel : Channel) : Option (Bytes × Mailbox) :=
  match m.queue channel with
  | [] => none
  | message :: rest => some (message, m.setQueue channel rest)

/-- Changing a queue leaves the other queues as they are. -/
theorem queue_setQueue (m : Mailbox) (channel other : Channel) (messages : List Bytes) :
    (m.setQueue channel messages).queue other =
      if other = channel then messages else m.queue other := by
  unfold setQueue queue
  simp only
  induction m.queues with
  | nil =>
    by_cases h : other = channel
    · simp [replace, h]
    · have hne : (other == channel) = false := by simpa using h
      simp [replace, List.lookup_cons, hne, h]
  | cons entry rest ih =>
    obtain ⟨c, q⟩ := entry
    by_cases hc : c = channel
    · subst hc
      by_cases h : other = c
      · simp [replace, h]
      · have hne : (other == c) = false := by simpa using h
        simp [replace, List.lookup_cons, hne, h]
    · by_cases h : other = c
      · subst h
        simp [replace, hc]
      · have hne : (other == c) = false := by simpa using h
        simp only [replace, hc, if_false, List.lookup_cons, hne]
        exact ih

/-- A message goes to the end of its queue. -/
theorem queue_push (m : Mailbox) (channel other : Channel) (message : Bytes) :
    (m.push channel message).queue other =
      if other = channel then m.queue channel ++ [message] else m.queue other :=
  queue_setQueue ..

/-- Taking a message takes the first one of its queue. -/
theorem pop?_eq_some_iff {m m' : Mailbox} {channel : Channel} {message : Bytes} :
    m.pop? channel = some (message, m') ↔
      ∃ rest, m.queue channel = message :: rest ∧ m' = m.setQueue channel rest := by
  unfold pop?
  cases m.queue channel with
  | nil => simp
  | cons first rest =>
    simp only [Option.some.injEq, Prod.mk.injEq, List.cons.injEq]
    constructor
    · rintro ⟨rfl, rfl⟩
      exact ⟨rest, ⟨rfl, rfl⟩, rfl⟩
    · rintro ⟨_, ⟨rfl, rfl⟩, rfl⟩
      exact ⟨rfl, rfl⟩

end Mailbox

end HaloMesh
