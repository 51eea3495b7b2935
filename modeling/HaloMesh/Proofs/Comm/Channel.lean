-- SUMMARY: Two ranks and the first messages on a channel between them, whatever the rest of the group does.
import HaloMesh.Loop
import HaloMesh.Proofs.Comm.Effect
import HaloMesh.Proofs.Comm.Outcomes
import HaloMesh.Proofs.Comm.Trace

/-!
# Channels

Where a group need not come to an end, one can still follow the messages on a single channel. If the rank
at its start sends nothing there before the listed messages, and the rank at its end comes to a result
with some property if these are the messages that it finds there first, then in the group every result of
the latter has the property. Neither rank need be asked what it does on other channels, nor after the
listed messages.
-/

namespace HaloMesh

/-! ## Requests on a channel -/

namespace Request

/-- The message that posting the request puts on the channel. -/
def puts? (rank : Nat) (channel : Channel) : Request → Option Bytes
  | .send peer tag payload => if channel = ⟨rank, peer, tag⟩ then some payload else none
  | .receive .. => none

/-- The length to which a message is cut that the request takes off the channel. -/
def takes? (rank : Nat) (channel : Channel) : Request → Option Nat
  | .send .. => none
  | .receive peer tag length => if channel = ⟨peer, rank, tag⟩ then some length else none

end Request

/-! ## Listed messages -/

/-- If a message is put on the channel, it is the first one listed. -/
def Puts (put : Option Bytes) (next : List Bytes → Prop) (ms : List Bytes) : Prop :=
  match put, ms with
  | some payload, m :: rest => payload = m ∧ next rest
  | _, ms => next ms

/-- If a message is taken off the channel, it is the first one listed. Any other may be anything. -/
def Takes (take : Option Nat) (next : Option Bytes → List Bytes → Prop) (ms : List Bytes) : Prop :=
  match take, ms with
  | some length, m :: rest => next (some (m.take length)) rest
  | _, ms => ∀ message, next message ms

section
variable {put : Option Bytes} {take : Option Nat} {ms : List Bytes}

theorem Puts.mono {next next' : List Bytes → Prop} (hput : Puts put next ms)
    (h : ∀ ms, next ms → next' ms) : Puts put next' ms := by
  unfold Puts at hput ⊢
  split at hput
  · exact ⟨hput.1, h _ hput.2⟩
  · exact h _ hput

theorem Takes.mono {next next' : Option Bytes → List Bytes → Prop} (htake : Takes take next ms)
    (h : ∀ message ms, next message ms → next' message ms) : Takes take next' ms := by
  unfold Takes at htake ⊢
  split at htake
  · exact h _ _ htake
  · exact fun message => h _ _ (htake message)

theorem puts_congr {next next' : List Bytes → Prop} (h : ∀ ms, next ms ↔ next' ms) :
    Puts put next ms ↔ Puts put next' ms :=
  ⟨fun hput => hput.mono fun ms => (h ms).mp, fun hput => hput.mono fun ms => (h ms).mpr⟩

theorem takes_congr {next next' : Option Bytes → List Bytes → Prop}
    (h : ∀ message ms, next message ms ↔ next' message ms) : Takes take next ms ↔ Takes take next' ms :=
  ⟨fun htake => htake.mono fun message ms => (h message ms).mp,
    fun htake => htake.mono fun message ms => (h message ms).mpr⟩

@[simp] theorem puts_none (next : List Bytes → Prop) : Puts none next ms ↔ next ms := Iff.rfl

@[simp] theorem puts_nil (next : List Bytes → Prop) : Puts put next [] ↔ next [] := by
  cases put <;> exact Iff.rfl

@[simp] theorem takes_none (next : Option Bytes → List Bytes → Prop) :
    Takes none next ms ↔ ∀ message, next message ms := Iff.rfl

@[simp] theorem takes_nil (next : Option Bytes → List Bytes → Prop) :
    Takes take next [] ↔ ∀ message, next message [] := by
  cases take <;> exact Iff.rfl

end

/-- What is left of the listed messages when some of them move on the channel: no others move before
them. -/
def Moves (moved ms ms' : List Bytes) : Prop := ms = moved ++ ms' ∨ ms = [] ∧ ms' = []

/-- The messages that are yet to be received are those in the queue and those that are yet to be sent. If
none are, more may be in the queue. -/
def Ahead (queue out inc : List Bytes) : Prop := queue ++ out = inc ∨ out = [] ∧ inc <+: queue

section
variable {queue queue' out out' inc inc' moved : List Bytes}

theorem Ahead.pushed (h : Ahead queue out inc) (hmoves : Moves moved out out') :
    Ahead (queue ++ moved) out' inc := by
  rcases hmoves with rfl | ⟨rfl, rfl⟩
  · rcases h with heq | ⟨hnil, hstart⟩
    · exact .inl (by rw [List.append_assoc, heq])
    · obtain ⟨-, rfl⟩ := List.append_eq_nil_iff.mp hnil
      exact .inr ⟨rfl, hstart.trans (List.prefix_append ..)⟩
  · refine .inr ⟨rfl, ?_⟩
    rcases h with heq | ⟨-, hstart⟩
    · rw [← heq, List.append_nil]
      exact List.prefix_append ..
    · exact hstart.trans (List.prefix_append ..)

theorem Ahead.popped (h : Ahead (moved ++ queue') out inc) (hmoves : Moves moved inc inc') :
    Ahead queue' out inc' := by
  rcases hmoves with rfl | ⟨rfl, rfl⟩
  · rcases h with heq | ⟨hnil, hstart⟩
    · exact .inl (List.append_cancel_left ((List.append_assoc ..).symm.trans heq))
    · exact .inr ⟨hnil, (List.prefix_append_right_inj moved).mp hstart⟩
  · rcases h with heq | ⟨hnil, -⟩
    · rw [List.append_assoc] at heq
      exact .inl (List.append_eq_nil_iff.mp heq).2
    · exact .inr ⟨hnil, List.nil_prefix⟩

/-- The message at the front of the queue is the first one listed. -/
theorem Ahead.found {m : Bytes} (h : Ahead (m :: queue) out inc) : inc = [] ∨ ∃ rest, inc = m :: rest := by
  rcases h with heq | ⟨-, hstart⟩
  · exact .inr ⟨_, heq.symm⟩
  · cases inc with
    | nil => exact .inl rfl
    | cons first rest =>
      obtain ⟨rfl, -⟩ := List.cons_prefix_cons.mp hstart
      exact .inr ⟨rest, rfl⟩

end

theorem Effect.popped_eq_of_mem (e : Effect) {channel : Channel} {m : Bytes}
    (h : m ∈ e.popped channel) : e.popped channel = [m] := by
  cases e with
  | silent | push => cases h
  | pop other message =>
    by_cases heq : other = channel
    · rw [popped, if_pos heq] at h ⊢
      rw [List.mem_singleton.mp h]
    · rw [popped, if_neg heq] at h
      cases h

/-! ## Programs along a channel -/

namespace Program

variable {α β : Type} {rank : Nat} {channel : Channel} {post post' : α → List Bytes → Prop}
  {ms : List Bytes}

/-- The rank sends the listed messages on the channel before any others. If they are the ones that it
finds there, it ends in a result with `post`, which may depend on the messages that are left. -/
def Follows (rank : Nat) (channel : Channel) (post : α → List Bytes → Prop) :
    Program α → List Bytes → Prop
  | .done a, ms => post a ms
  | .post request next, ms =>
    Puts (request.puts? rank channel) (fun ms => next.Follows rank channel post ms) ms
  | .await request next, ms =>
    Takes (request.takes? rank channel) (fun message ms => (next message).Follows rank channel post ms) ms
  | .log _ next, ms => next.Follows rank channel post ms

theorem follows_bind_iff {post : β → List Bytes → Prop} {p : Program α} {k : α → Program β} :
    (p.bind k).Follows rank channel post ms ↔
      p.Follows rank channel (fun a => (k a).Follows rank channel post) ms := by
  induction p generalizing ms with
  | done a => exact Iff.rfl
  | post request next ih => exact puts_congr fun _ => ih
  | await request next ih => exact takes_congr fun message _ => ih message
  | log record next ih => exact ih

theorem Follows.mono {p : Program α} (hp : p.Follows rank channel post ms)
    (h : ∀ a ms, post a ms → post' a ms) : p.Follows rank channel post' ms := by
  induction p generalizing ms with
  | done a => exact h a ms hp
  | post request next ih => exact Puts.mono hp fun _ => ih
  | await request next ih => exact Takes.mono hp fun message _ => ih message
  | log record next ih => exact ih hp

/-- With no messages listed nothing is known of those that come. -/
theorem follows_nil_iff {p : Program α} :
    p.Follows rank channel post [] ↔ p.Ensures fun a => post a [] := by
  induction p with
  | done a => exact Iff.rfl
  | post request next ih => exact (puts_nil _).trans ih
  | await request next ih => exact (takes_nil _).trans (forall_congr' ih)
  | log record next ih => exact ih

/-- The messages of another channel. -/
theorem follows_issueAll_of_ne {requests : List Request}
    (h : ∀ request ∈ requests, request.puts? rank channel = none) :
    (issueAll requests).Follows rank channel (fun _ ms' => ms' = ms) ms := by
  induction requests with
  | nil => exact rfl
  | cons request requests ih =>
    have hrest := ih fun request' hmem => h request' (by simp [hmem])
    rw [issueAll, Follows, h request (by simp), puts_none]
    exact hrest

/-- The listed messages are sent in order. -/
theorem follows_issueAll {rank peer tag : Nat} (messages : List Bytes) :
    (issueAll (messages.map (.send peer tag))).Follows rank ⟨rank, peer, tag⟩ (fun _ ms => ms = [])
      messages := by
  induction messages with
  | nil => exact rfl
  | cons message messages ih =>
    rw [List.map_cons, issueAll, Follows, Request.puts?, if_pos rfl]
    exact ⟨rfl, ih⟩

/-! ## Steps -/

theorem Follows.step {p p' : Program α} {e : Effect} (hp : p.Follows rank channel post ms)
    (hdoes : p.Does rank e p')
    (hfound : ∀ m ∈ e.popped channel, ms = [] ∨ ∃ rest, ms = m :: rest) :
    ∃ ms', p'.Follows rank channel post ms' ∧ Moves (e.pushed channel ++ e.popped channel) ms ms' := by
  cases hdoes with
  | send peer tag payload =>
    by_cases heq : channel = ⟨rank, peer, tag⟩
    · cases ms with
      | nil => exact ⟨[], (puts_nil _).mp hp, .inr ⟨rfl, rfl⟩⟩
      | cons m rest =>
        simp only [Follows, Request.puts?, if_pos heq, Puts] at hp
        obtain ⟨rfl, hp⟩ := hp
        exact ⟨rest, hp, .inl (by simp [Effect.pushed, Effect.popped, heq])⟩
    · simp only [Follows, Request.puts?, if_neg heq, puts_none] at hp
      exact ⟨ms, hp, .inl (by simp [Effect.pushed, Effect.popped, Ne.symm heq])⟩
  | expect peer tag length => exact ⟨ms, hp, .inl rfl⟩
  | sent peer tag payload next => exact ⟨ms, hp none, .inl rfl⟩
  | receive peer tag length next message =>
    by_cases heq : channel = ⟨peer, rank, tag⟩
    · rcases hfound message (by simp [Effect.popped, heq]) with rfl | ⟨rest, rfl⟩
      · exact ⟨[], (takes_nil _).mp hp _, .inr ⟨rfl, rfl⟩⟩
      · simp only [Follows, Request.takes?, if_pos heq, Takes] at hp
        exact ⟨rest, hp, .inl (by simp [Effect.pushed, Effect.popped, heq])⟩
    · simp only [Follows, Request.takes?, if_neg heq, takes_none] at hp
      exact ⟨ms, hp _, .inl (by simp [Effect.pushed, Effect.popped, Ne.symm heq])⟩
  | log record next => exact ⟨ms, hp, .inl rfl⟩

end Program

/-! ## Programs that can fail -/

namespace Comm

variable {α β σ : Type} {error : MeshError → Prop} {rank : Nat} {channel : Channel} {ms : List Bytes}
  {post mid : α → List Bytes → Prop}

/-- The rank follows the listed messages, and then it returns something with `post`, reports an error with
`error`, or faults. -/
def Follows (error : MeshError → Prop) (rank : Nat) (channel : Channel) (x : Comm α) (ms : List Bytes)
    (post : α → List Bytes → Prop) : Prop :=
  x.run.Follows rank channel (fun result ms => Outcome error (post · ms) result) ms

theorem Follows.pure {a : α} (h : post a ms) : (Pure.pure a : Comm α).Follows error rank channel ms post :=
  h

theorem Follows.bind {x : Comm α} {f : α → Comm β} {post : β → List Bytes → Prop}
    (hx : x.Follows error rank channel ms mid)
    (hf : ∀ a ms, mid a ms → (f a).Follows error rank channel ms post) :
    (x >>= f).Follows error rank channel ms post := by
  refine Program.follows_bind_iff.mpr (Program.Follows.mono hx fun result ms h => ?_)
  cases result with
  | ok a => exact hf a ms h
  | error failure => exact h.of_error

theorem Follows.mono {post' : α → List Bytes → Prop} {x : Comm α}
    (hx : x.Follows error rank channel ms post) (h : ∀ a ms, post a ms → post' a ms) :
    x.Follows error rank channel ms post' := by
  refine Program.Follows.mono hx fun result ms hresult => ?_
  cases result with
  | ok a => exact h a ms hresult
  | error failure => exact hresult.of_error

theorem Ensures.follows {x : Comm α} {post : α → Prop} (hx : x.Ensures error post) :
    x.Follows error rank channel [] fun a ms => post a ∧ ms = [] := by
  refine Program.follows_nil_iff.mpr (Program.Ensures.mono hx fun result h => ?_)
  cases result with
  | ok a => exact ⟨h, rfl⟩
  | error failure => exact h.of_error

/-- A program that cannot fail. -/
theorem Follows.lift_bind {p : Program α} {f : α → Comm β} {post : β → List Bytes → Prop}
    (hp : p.Follows rank channel (fun a ms => (f a).Follows error rank channel ms post) ms) :
    (liftM p >>= f).Follows error rank channel ms post := by
  have hlift : (liftM p : Comm α).Follows error rank channel ms
      fun a ms => (f a).Follows error rank channel ms post :=
    Program.follows_bind_iff.mpr (hp.mono fun _ _ h => h)
  exact hlift.bind fun _ _ h => h

theorem Follows.fault_bind {x : Except Fault α} {f : α → Comm β} {post : β → List Bytes → Prop}
    (h : ∀ a, x = .ok a → (f a).Follows error rank channel ms post) :
    (liftM x >>= f).Follows error rank channel ms post := by
  cases x with
  | ok a => exact h a rfl
  | error cause => exact trivial

theorem Follows.check_bind {x : Except MeshError α} {f : α → Comm β} {post : β → List Bytes → Prop}
    (hok : ∀ a, x = .ok a → (f a).Follows error rank channel ms post)
    (herror : ∀ e, x = .error e → error e) : (liftM x >>= f).Follows error rank channel ms post := by
  cases x with
  | ok a => exact hok a rfl
  | error e => exact herror e rfl

theorem Follows.result_bind {x : Except Failure α} {f : α → Comm β} {post : β → List Bytes → Prop}
    (hok : ∀ a, x = .ok a → (f a).Follows error rank channel ms post)
    (herror : ∀ e, x = .error (.reported e) → error e) :
    (liftM x >>= f).Follows error rank channel ms post := by
  match x with
  | .ok a => exact hok a rfl
  | .error (.reported e) => exact herror e rfl
  | .error (.fault cause) => exact trivial

/-- A counted loop that keeps an invariant. -/
theorem Follows.countFrom {body : Nat → σ → Comm σ} {invariant : Nat → σ → List Bytes → Prop}
    {n start : Nat} {s : σ} (hs : invariant start s ms)
    (h : ∀ i < start + n, ∀ s ms, invariant i s ms →
      (body i s).Follows error rank channel ms (invariant (i + 1))) :
    (countFrom body n start s).Follows error rank channel ms (invariant (start + n)) := by
  induction n generalizing start s ms with
  | zero => exact hs
  | succ n ih =>
    rw [HaloMesh.countFrom]
    refine (h start (by omega) s ms hs).bind fun s' ms' hs' => ?_
    rw [show start + (n + 1) = start + 1 + n by omega] at h ⊢
    exact ih hs' h

end Comm

/-! ## Groups -/

namespace Group

variable {α : Type} {g g' : Group α}

/-- Every rank that has ended came to a result with `post`. -/
theorem ensures_of_reaches {post : Nat → α → Prop}
    (h : ∀ (r : Nat) p, g.programs[r]? = some p → p.Ensures (post r)) (hreaches : Reaches g g') :
    ∀ (r : Nat) p, g'.programs[r]? = some p → p.Ensures (post r) := by
  induction hreaches with
  | refl => exact h
  | step _ hstep ih =>
    obtain ⟨rank, hrank⟩ := hstep
    obtain ⟨e, -, p, p', hp, hdoes, -, hprograms⟩ := exists_stepWith hrank
    rw [hprograms]
    refine forall_getElem?_set ?_ fun r p _ hp => ih r p hp
    have hensures := ih rank p hp
    cases hdoes with
    | send | expect | log => exact hensures
    | sent | receive => exact hensures _

/-- The rank at the start of the channel follows the messages that are yet to be sent, the rank at its end
those that are yet to be received, and the latter are the ones under way and the former. -/
structure Carries (channel : Channel) (post post' : α → List Bytes → Prop) (g : Group α)
    (out inc : List Bytes) : Prop where
  source : ∀ p, g.programs[channel.source]? = some p → p.Follows channel.source channel post out
  dest : ∀ p, g.programs[channel.dest]? = some p → p.Follows channel.dest channel post' inc
  ahead : Ahead (g.mail.queue channel) out inc

variable {channel : Channel} {post post' : α → List Bytes → Prop} {out inc : List Bytes}

theorem Carries.step (h : Carries channel post post' g out inc) (hne : channel.source ≠ channel.dest)
    (hstep : Step g g') : ∃ out' inc', Carries channel post post' g' out' inc' := by
  obtain ⟨rank, hrank⟩ := hstep
  obtain ⟨e, -, p, p', hp, hdoes, happlies, hprograms⟩ := exists_stepWith hrank
  have howned := hdoes.ownedBy
  have hbalance := happlies.balance channel
  have hself : g'.programs[rank]? = some p' := by
    rw [hprograms, List.getElem?_set_self (List.getElem?_eq_some_iff.mp hp).1]
  have hothers : ∀ r, r ≠ rank → g'.programs[r]? = g.programs[r]? := by
    intro r hr
    rw [hprograms, List.getElem?_set_ne (Ne.symm hr)]
  by_cases hsource : channel.source = rank
  · have hpopped : e.popped channel = [] :=
      howned.popped_eq_nil fun hdest => hne (hsource.trans hdest.symm)
    have hfollows := h.source p (hsource ▸ hp)
    rw [hsource] at hfollows
    obtain ⟨out', hfollows, hmoves⟩ := hfollows.step hdoes (by simp [hpopped])
    rw [hpopped, List.nil_append] at hbalance
    rw [hpopped, List.append_nil] at hmoves
    refine ⟨out', inc, fun q hq => ?_, fun q hq => ?_, hbalance ▸ h.ahead.pushed hmoves⟩
    · cases hself.symm.trans (hsource ▸ hq)
      exact hsource ▸ hfollows
    · exact h.dest q (hothers _ (fun hdest => hne (hsource.trans hdest.symm)) ▸ hq)
  · have hpushed := howned.pushed_eq_nil hsource
    rw [hpushed, List.append_nil] at hbalance
    have hkept : ∀ q, g'.programs[channel.source]? = some q →
        q.Follows channel.source channel post out :=
      fun q hq => h.source q (hothers _ hsource ▸ hq)
    by_cases hdest : channel.dest = rank
    · have hfollows := h.dest p (hdest ▸ hp)
      rw [hdest] at hfollows
      have hahead := h.ahead
      rw [← hbalance] at hahead
      obtain ⟨inc', hfollows, hmoves⟩ := hfollows.step hdoes fun m hm => by
        rw [e.popped_eq_of_mem hm] at hahead
        exact hahead.found
      rw [hpushed, List.nil_append] at hmoves
      refine ⟨out, inc', hkept, fun q hq => ?_, hahead.popped hmoves⟩
      cases hself.symm.trans (hdest ▸ hq)
      exact hdest ▸ hfollows
    · rw [howned.popped_eq_nil hdest, List.nil_append] at hbalance
      refine ⟨out, inc, hkept, fun q hq => h.dest q (hothers _ hdest ▸ hq), hbalance ▸ h.ahead⟩

/-- In a group whose ranks start together, what the rank at the end of a channel comes to has the property
that the listed messages give it. -/
theorem follows_of_reaches {programs : List (Program α)} (hne : channel.source ≠ channel.dest)
    {ms : List Bytes} (hsource : ∀ p, programs[channel.source]? = some p →
      p.Follows channel.source channel post ms)
    (hdest : ∀ p, programs[channel.dest]? = some p → p.Follows channel.dest channel post' ms)
    (hreaches : Reaches (start programs) g) :
    ∃ out inc, Carries channel post post' g out inc := by
  induction hreaches with
  | refl => exact ⟨ms, ms, hsource, hdest, .inl rfl⟩
  | step _ hstep ih =>
    obtain ⟨out, inc, hcarries⟩ := ih
    exact hcarries.step hne hstep

end Group

/-! ## Groups of members that can fail -/

theorem Member.of_getElem?_all {α : Type} {f : Member → α} {size r : Nat} {a : α}
    (h : ((Member.all size).map f)[r]? = some a) : r < size ∧ a = f ⟨r, size⟩ := by
  simp only [Member.all, List.getElem?_map, Option.map_eq_some_iff, List.getElem?_eq_some_iff,
    List.getElem_range, List.length_range] at h
  obtain ⟨_, ⟨_, ⟨hr, rfl⟩, rfl⟩, rfl⟩ := h
  exact ⟨hr, rfl⟩

namespace Comm

variable {α : Type} {error : MeshError → Prop} {f : Member → Comm α} {n rank : Nat}
  {g : Group (Except Failure α)} {result : Except Failure α}

theorem lt_of_reaches (hreaches : Group.Reaches (.start ((Member.all n).map fun me => (f me).run)) g)
    (hended : g.programs[rank]? = some (.done result)) : rank < n := by
  obtain ⟨es, htrace⟩ := Group.exists_trace hreaches
  have hlength := htrace.length_eq
  have hrank := (List.getElem?_eq_some_iff.mp hended).1
  simpa [hlength, Group.start, Member.all] using hrank

/-- What a member ensures, it comes to in the group. -/
theorem outcome_of_ensures {post : α → Prop}
    (hreaches : Group.Reaches (.start ((Member.all n).map fun me => (f me).run)) g)
    (h : (f ⟨rank, n⟩).Ensures error post) (hended : g.programs[rank]? = some (.done result)) :
    Outcome error post result := by
  have hensures : ∀ (r : Nat) p, g.programs[r]? = some p →
      p.Ensures fun result => r = rank → Outcome error post result := by
    refine Group.ensures_of_reaches (fun r p hp => ?_) hreaches
    obtain ⟨-, rfl⟩ := Member.of_getElem?_all hp
    by_cases hr : r = rank
    · subst hr
      exact Program.Ensures.mono h fun _ h _ => h
    · exact .of_forall _ fun _ h => absurd h hr
  exact hensures rank _ hended rfl

/-- What a member comes to in the group, if the listed messages are what another one sends it first. -/
theorem outcome_of_follows {source tag : Nat} {ms : List Bytes} {post post' : α → List Bytes → Prop}
    (hreaches : Group.Reaches (.start ((Member.all n).map fun me => (f me).run)) g)
    (hne : source ≠ rank) (hsource : (f ⟨source, n⟩).Follows error source ⟨source, rank, tag⟩ ms post)
    (hdest : (f ⟨rank, n⟩).Follows error rank ⟨source, rank, tag⟩ ms post')
    (hended : g.programs[rank]? = some (.done result)) : ∃ ms', Outcome error (post' · ms') result := by
  have hsource : ∀ p, ((Member.all n).map fun me => (f me).run)[source]? = some p →
      p.Follows source ⟨source, rank, tag⟩ (fun result ms => Outcome error (post · ms) result) ms := by
    intro p hp
    obtain ⟨-, rfl⟩ := Member.of_getElem?_all hp
    exact hsource
  have hdest : ∀ p, ((Member.all n).map fun me => (f me).run)[rank]? = some p →
      p.Follows rank ⟨source, rank, tag⟩ (fun result ms => Outcome error (post' · ms) result) ms := by
    intro p hp
    obtain ⟨-, rfl⟩ := Member.of_getElem?_all hp
    exact hdest
  have hcarries : ∃ out inc, Group.Carries ⟨source, rank, tag⟩ _ _ g out inc :=
    Group.follows_of_reaches hne hsource hdest hreaches
  obtain ⟨_, ms', hcarries⟩ := hcarries
  exact ⟨ms', hcarries.dest _ hended⟩

end Comm

end HaloMesh
