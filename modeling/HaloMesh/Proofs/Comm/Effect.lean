-- SUMMARY: What one action of a rank does to the queues, and that actions of different ranks commute.
import HaloMesh.Comm.Group

/-!
# Effects

An action of a rank does nothing to the mailbox, puts a message on a channel that starts at the rank,
or takes one off a channel that ends at it. Two ranks meet only where one puts a message on the end of
a queue and the other takes one off its front, and there the order does not matter. The mailbox is
read as the function from channels to queues, so that equal contents are equal.
-/

namespace HaloMesh

/-! ## Queues -/

/-- The messages under way on every channel. -/
abbrev Queues := Channel → List Bytes

namespace Queues

/-- No message is under way. -/
def empty : Queues := fun _ => []

def set (q : Queues) (channel : Channel) (messages : List Bytes) : Queues :=
  fun other => if other = channel then messages else q other

@[simp] theorem set_same (q : Queues) (channel : Channel) (messages : List Bytes) :
    q.set channel messages channel = messages := if_pos rfl

theorem set_of_ne (q : Queues) {channel other : Channel} (h : other ≠ channel)
    (messages : List Bytes) : q.set channel messages other = q other := if_neg h

@[simp] theorem set_set (q : Queues) (channel : Channel) (messages others : List Bytes) :
    (q.set channel messages).set channel others = q.set channel others := by
  funext other
  unfold set
  split <;> rfl

theorem set_comm (q : Queues) {channel other : Channel} (h : channel ≠ other)
    (messages others : List Bytes) :
    (q.set channel messages).set other others = (q.set other others).set channel messages := by
  funext third
  unfold set
  by_cases hother : third = other
  · subst hother
    simp [Ne.symm h]
  · simp [hother]

end Queues

/-! ## Effects -/

/-- What an action does to the queues. -/
inductive Effect where
  | silent
  | push (channel : Channel) (message : Bytes)
  | pop (channel : Channel) (message : Bytes)
  deriving DecidableEq, Repr, Inhabited

namespace Effect

def Applies : Effect → Queues → Queues → Prop
  | silent, q, q' => q' = q
  | push channel message, q, q' => q' = q.set channel (q channel ++ [message])
  | pop channel message, q, q' => ∃ rest, q channel = message :: rest ∧ q' = q.set channel rest

/-- Whether the effect is that of an action of a rank. -/
def OwnedBy (rank : Nat) : Effect → Prop
  | silent => True
  | push channel _ => channel.source = rank
  | pop channel _ => channel.dest = rank

/-- A message can be taken whether or not another is put behind it first. -/
theorem commute_push_pop {q a b : Queues} {channel other : Channel} {message first : Bytes}
    (ha : (push channel message).Applies q a) (hb : (pop other first).Applies q b) :
    ∃ c, (pop other first).Applies a c ∧ (push channel message).Applies b c := by
  obtain ⟨rest, hrest, rfl⟩ := hb
  cases ha
  by_cases heq : other = channel
  · subst heq
    refine ⟨q.set other (rest ++ [message]), ⟨rest ++ [message], ?_, ?_⟩, ?_⟩
    · rw [Queues.set_same, hrest]
      rfl
    · rw [Queues.set_set]
    · simp [Applies]
  · refine ⟨_, ⟨rest, ?_, rfl⟩, ?_⟩
    · rw [Queues.set_of_ne _ heq, hrest]
    · rw [Applies, Queues.set_of_ne _ (Ne.symm heq), Queues.set_comm _ (Ne.symm heq)]

/-- The effects of two ranks can happen in either order. -/
theorem commute {r s : Nat} (hne : r ≠ s) {e f : Effect} (he : e.OwnedBy r) (hf : f.OwnedBy s)
    {q a b : Queues} (ha : e.Applies q a) (hb : f.Applies q b) :
    ∃ c, f.Applies a c ∧ e.Applies b c := by
  cases e with
  | silent =>
    cases ha
    exact ⟨b, hb, rfl⟩
  | push channel message =>
    cases f with
    | silent =>
      cases hb
      exact ⟨a, rfl, ha⟩
    | push other first =>
      have hchannels : channel ≠ other := by
        rintro rfl
        exact hne (he.symm.trans hf)
      cases ha
      cases hb
      refine ⟨_, rfl, ?_⟩
      rw [Applies, Queues.set_of_ne _ hchannels, Queues.set_of_ne _ (Ne.symm hchannels),
        Queues.set_comm _ hchannels]
    | pop other first => exact commute_push_pop ha hb
  | pop channel message =>
    cases f with
    | silent =>
      cases hb
      exact ⟨a, rfl, ha⟩
    | push other first =>
      obtain ⟨c, hpop, hpush⟩ := commute_push_pop hb ha
      exact ⟨c, hpush, hpop⟩
    | pop other first =>
      have hchannels : channel ≠ other := by
        rintro rfl
        exact hne (he.symm.trans hf)
      obtain ⟨rest, hrest, rfl⟩ := ha
      obtain ⟨rest', hrest', rfl⟩ := hb
      refine ⟨_, ⟨rest', ?_, rfl⟩, rest, ?_, Queues.set_comm _ hchannels _ _⟩
      · rw [Queues.set_of_ne _ (Ne.symm hchannels), hrest']
      · rw [Queues.set_of_ne _ hchannels, hrest]

end Effect

/-! ## Actions of a rank -/

namespace Program

variable {α β : Type}

/-- The program of `rank` takes one action with an effect. -/
inductive Does (rank : Nat) : Program α → Effect → Program α → Prop
  | send (peer tag : Nat) (payload : Bytes) (next : Program α) :
      Does rank (.post (.send peer tag payload) next) (.push ⟨rank, peer, tag⟩ payload) next
  | expect (peer tag length : Nat) (next : Program α) :
      Does rank (.post (.receive peer tag length) next) .silent next
  | sent (peer tag : Nat) (payload : Bytes) (next : Option Bytes → Program α) :
      Does rank (.await (.send peer tag payload) next) .silent (next none)
  | receive (peer tag length : Nat) (next : Option Bytes → Program α) (message : Bytes) :
      Does rank (.await (.receive peer tag length) next) (.pop ⟨peer, rank, tag⟩ message)
        (next (some (message.take length)))
  | log (record : LogRecord) (next : Program α) : Does rank (.log record next) .silent next

namespace Does

variable {rank : Nat} {p p' : Program α} {e : Effect}

theorem ownedBy (h : Does rank p e p') : e.OwnedBy rank := by
  cases h with
  | send => exact rfl
  | expect => exact trivial
  | sent => exact trivial
  | receive => exact rfl
  | log => exact trivial

theorem bind (h : Does rank p e p') (k : α → Program β) :
    Does rank (p.bind k) e (p'.bind k) := by
  cases h with
  | send peer tag payload next => exact .send peer tag payload _
  | expect peer tag length next => exact .expect peer tag length _
  | sent peer tag payload next => exact .sent peer tag payload fun message => (next message).bind k
  | receive peer tag length next message =>
    exact .receive peer tag length (fun message => (next message).bind k) message
  | log record next => exact .log record _

/-- The first action of a sequence is that of its first part, unless that part has ended. -/
theorem of_bind {k : α → Program β} {q : Program β} (h : Does rank (p.bind k) e q)
    (hp : ∀ a, p ≠ .done a) : ∃ p', Does rank p e p' ∧ q = p'.bind k := by
  cases p with
  | done a => exact absurd rfl (hp a)
  | post request next =>
    cases request with
    | send peer tag payload =>
      cases h
      exact ⟨next, .send peer tag payload next, rfl⟩
    | receive peer tag length =>
      cases h
      exact ⟨next, .expect peer tag length next, rfl⟩
  | await request next =>
    cases request with
    | send peer tag payload =>
      cases h
      exact ⟨next none, .sent peer tag payload next, rfl⟩
    | receive peer tag length =>
      cases h with
      | receive _ _ _ _ message => exact ⟨_, .receive peer tag length next message, rfl⟩
  | log record next =>
    cases h
    exact ⟨next, .log record next, rfl⟩

/-- The queues decide what a rank does next. -/
theorem deterministic {p'' : Program α} {f : Effect} {q a b : Queues} (h : Does rank p e p')
    (h' : Does rank p f p'') (ha : e.Applies q a) (hb : f.Applies q b) : p' = p'' ∧ a = b := by
  cases h with
  | send =>
    cases h'
    exact ⟨rfl, ha.trans hb.symm⟩
  | expect =>
    cases h'
    exact ⟨rfl, ha.trans hb.symm⟩
  | sent =>
    cases h'
    exact ⟨rfl, ha.trans hb.symm⟩
  | log =>
    cases h'
    exact ⟨rfl, ha.trans hb.symm⟩
  | receive peer tag length next message =>
    cases h' with
    | receive _ _ _ _ message' =>
      obtain ⟨rest, hrest, rfl⟩ := ha
      obtain ⟨rest', hrest', rfl⟩ := hb
      obtain ⟨rfl, rfl⟩ := List.cons_eq_cons.mp (hrest.symm.trans hrest')
      exact ⟨rfl, rfl⟩

end Does

/-! ## Steps with a mailbox -/

theorem queue_push_eq (mail : Mailbox) (channel : Channel) (message : Bytes) :
    (mail.push channel message).queue =
      Queues.set mail.queue channel (mail.queue channel ++ [message]) :=
  funext fun other => mail.queue_push channel other message

theorem queue_setQueue_eq (mail : Mailbox) (channel : Channel) (messages : List Bytes) :
    (mail.setQueue channel messages).queue = Queues.set mail.queue channel messages :=
  funext fun other => mail.queue_setQueue channel other messages

theorem does_of_step {rank : Nat} {p p' : Program α} {mail mail' : Mailbox}
    (h : p.step? rank mail = some (p', mail')) :
    ∃ e, Does rank p e p' ∧ e.Applies mail.queue mail'.queue := by
  cases p with
  | done a => cases h
  | post request next =>
    cases request with
    | send peer tag payload =>
      cases h
      exact ⟨_, .send peer tag payload _, queue_push_eq ..⟩
    | receive peer tag length =>
      cases h
      exact ⟨_, .expect peer tag length _, rfl⟩
  | await request next =>
    cases request with
    | send peer tag payload =>
      cases h
      exact ⟨_, .sent peer tag payload next, rfl⟩
    | receive peer tag length =>
      simp only [step?] at h
      split at h
      · rename_i message mail'' hpop
        cases h
        obtain ⟨rest, hrest, rfl⟩ := Mailbox.pop?_eq_some_iff.mp hpop
        exact ⟨_, .receive peer tag length next message, rest, hrest, queue_setQueue_eq ..⟩
      · cases h
  | log record next =>
    cases h
    exact ⟨_, .log record _, rfl⟩

theorem step_of_does {rank : Nat} {p p' : Program α} {e : Effect} {mail : Mailbox} {q : Queues}
    (h : Does rank p e p') (hq : e.Applies mail.queue q) :
    ∃ mail', p.step? rank mail = some (p', mail') ∧ mail'.queue = q := by
  cases h with
  | send peer tag payload next => exact ⟨_, rfl, (queue_push_eq ..).trans hq.symm⟩
  | expect peer tag length next => exact ⟨_, rfl, hq.symm⟩
  | sent peer tag payload next => exact ⟨_, rfl, hq.symm⟩
  | log record next => exact ⟨_, rfl, hq.symm⟩
  | receive peer tag length next message =>
    obtain ⟨rest, hrest, rfl⟩ := hq
    have hpop := Mailbox.pop?_eq_some_iff.mpr ⟨rest, hrest, rfl⟩
    exact ⟨_, by rw [step?, hpop], queue_setQueue_eq ..⟩

end Program

end HaloMesh
