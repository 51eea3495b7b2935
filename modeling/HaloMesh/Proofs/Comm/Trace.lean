-- SUMMARY: In a round, every interleaving lets a rank send and receive the same messages in the same order.
import HaloMesh.Proofs.Comm.Round

/-!
# Traces

That all interleavings of a group end alike says nothing about what happens on the way. A `Trace` lists
the effects of the steps of one interleaving. In a round, what has been sent and is under way or is yet
to be sent is what is yet to be received, on every channel and at any time. So the message that a rank
finds next is the one that the round has for it, and each rank does what the round lists, one after the
other.
-/

namespace HaloMesh

namespace Effect

/-! ## Effects on one channel -/

/-- The messages that an effect puts on a channel. -/
def pushed (channel : Channel) : Effect → List Bytes
  | push other message => if other = channel then [message] else []
  | _ => []

/-- The messages that an effect takes off a channel. -/
def popped (channel : Channel) : Effect → List Bytes
  | pop other message => if other = channel then [message] else []
  | _ => []

/-- What a channel holds before and after an effect. -/
theorem Applies.balance {e : Effect} {q q' : Queues} (h : e.Applies q q') (channel : Channel) :
    e.popped channel ++ q' channel = q channel ++ e.pushed channel := by
  cases e with
  | silent =>
    cases h
    simp [popped, pushed]
  | push other message =>
    cases h
    by_cases heq : other = channel
    · subst heq
      simp [popped, pushed]
    · simp [popped, pushed, heq, Queues.set_of_ne _ (Ne.symm heq)]
  | pop other message =>
    obtain ⟨rest, hrest, rfl⟩ := h
    by_cases heq : other = channel
    · subst heq
      simp [popped, pushed, hrest]
    · simp [popped, pushed, heq, Queues.set_of_ne _ (Ne.symm heq)]

/-- A rank puts messages only on channels that start at it. -/
theorem OwnedBy.pushed_eq_nil {e : Effect} {rank : Nat} (h : e.OwnedBy rank) {channel : Channel}
    (hne : channel.source ≠ rank) : e.pushed channel = [] := by
  cases e with
  | silent => rfl
  | push other message =>
    refine if_neg ?_
    rintro rfl
    exact hne h
  | pop other message => rfl

/-- A rank takes messages only off channels that end at it. -/
theorem OwnedBy.popped_eq_nil {e : Effect} {rank : Nat} (h : e.OwnedBy rank) {channel : Channel}
    (hne : channel.dest ≠ rank) : e.popped channel = [] := by
  cases e with
  | silent => rfl
  | push other message => rfl
  | pop other message =>
    refine if_neg ?_
    rintro rfl
    exact hne h

/-- The message that is received, with the channel that it comes from. -/
def receipt? : Effect → Option (Channel × Bytes)
  | pop channel message => some (channel, message)
  | _ => none

/-- The effects that change a queue. -/
def visible (es : List Effect) : List Effect := es.filter (· ≠ silent)

end Effect

namespace Parcel

theorem flatMap_pushed_sent (rank : Nat) (parcels : List Parcel) (channel : Channel) :
    (parcels.map (sent rank)).flatMap (Effect.pushed channel) = sentOn rank parcels channel := by
  induction parcels with
  | nil => simp [sentOn, between]
  | cons p parcels ih =>
    rw [List.map_cons, List.flatMap_cons, ih, sentOn_cons, sent, Effect.pushed]
    by_cases heq : channel = ⟨rank, p.peer, p.tag⟩
    · rw [if_pos heq.symm, if_pos heq]
      rfl
    · rw [if_neg (Ne.symm heq), if_neg heq]
      rfl

theorem flatMap_popped_received (rank : Nat) (parcels : List Parcel) (channel : Channel) :
    (parcels.map (received rank)).flatMap (Effect.popped channel) = receivedOn rank parcels channel := by
  induction parcels with
  | nil => simp [receivedOn, between]
  | cons p parcels ih =>
    rw [List.map_cons, List.flatMap_cons, ih, receivedOn_cons, received, Effect.popped]
    by_cases heq : channel = ⟨p.peer, rank, p.tag⟩
    · rw [if_pos heq.symm, if_pos heq]
      rfl
    · rw [if_neg (Ne.symm heq), if_neg heq]
      rfl

theorem flatMap_popped_sent (rank : Nat) (parcels : List Parcel) (channel : Channel) :
    (parcels.map (sent rank)).flatMap (Effect.popped channel) = [] := by
  rw [List.flatMap_map]
  exact List.flatMap_eq_nil_iff.mpr fun _ _ => rfl

theorem flatMap_pushed_received (rank : Nat) (parcels : List Parcel) (channel : Channel) :
    (parcels.map (received rank)).flatMap (Effect.pushed channel) = [] := by
  rw [List.flatMap_map]
  exact List.flatMap_eq_nil_iff.mpr fun _ _ => rfl

end Parcel

/-! ## What a rank does next -/

namespace Program

variable {α : Type} {rank : Nat} {p p' : Program α} {e : Effect} {es : List Effect} {a : α}

/-- A rank can do nothing else next than what it is to do next, if it finds the right message. -/
theorem Does.next (h : Does rank p e p') (hp : Performs rank p es (.done a))
    (hmessage : ∀ channel m m' es', e = .pop channel m → es = .pop channel m' :: es' → m = m') :
    (e = .silent ∧ Performs rank p' es (.done a)) ∨
      ∃ es', es = e :: es' ∧ Performs rank p' es' (.done a) := by
  cases hp with
  | refl => cases h
  | silent hdoes hrest =>
    cases hdoes <;> cases h <;> exact .inl ⟨rfl, hrest⟩
  | effect hdoes hrest =>
    cases hdoes with
    | send => cases h; exact .inr ⟨_, rfl, hrest⟩
    | expect => cases h; exact .inr ⟨_, rfl, hrest⟩
    | sent => cases h; exact .inr ⟨_, rfl, hrest⟩
    | log => cases h; exact .inr ⟨_, rfl, hrest⟩
    | receive peer tag length next message =>
      cases h with
      | receive _ _ _ _ found =>
        cases hmessage _ _ _ _ rfl rfl
        exact .inr ⟨_, rfl, hrest⟩

theorem Performs.eq_nil_of_done (h : Performs rank (.done a) es p) : es = [] := by
  cases h with
  | refl => rfl
  | silent hdoes => cases hdoes
  | effect hdoes => cases hdoes

end Program

/-! ## Interleavings with their effects -/

namespace Group

variable {α : Type} {g g' : Group α}

/-- The rank takes a step with an effect. -/
def StepWith (rank : Nat) (e : Effect) (g g' : Group α) : Prop :=
  g.stepAt? rank = some g' ∧ ∃ p p', g.programs[rank]? = some p ∧ p.Does rank e p' ∧
    e.Applies g.mail.queue g'.mail.queue ∧ g'.programs = g.programs.set rank p'

/-- An interleaving leads from one group to another, with the listed effects. -/
inductive Trace : Group α → List (Nat × Effect) → Group α → Prop
  | refl (g : Group α) : Trace g [] g
  | step {g g' final : Group α} {rank : Nat} {e : Effect} {es : List (Nat × Effect)} :
      StepWith rank e g g' → Trace g' es final → Trace g ((rank, e) :: es) final

theorem exists_stepWith {rank : Nat} (h : g.stepAt? rank = some g') : ∃ e, StepWith rank e g g' := by
  have hstep := h
  unfold stepAt? at hstep
  split at hstep
  · cases hstep
  · rename_i p hp
    obtain ⟨⟨p', mail⟩, htaken, rfl⟩ := Option.map_eq_some_iff.mp hstep
    obtain ⟨e, hdoes, happlies⟩ := Program.does_of_step htaken
    exact ⟨e, h, p, p', hp, hdoes, happlies, rfl⟩

theorem Trace.snoc {es : List (Nat × Effect)} {rank : Nat} {e : Effect} {g'' : Group α}
    (h : Trace g es g') (hstep : StepWith rank e g' g'') : Trace g (es ++ [(rank, e)]) g'' := by
  induction h with
  | refl => exact .step hstep (.refl _)
  | step hfirst _ ih => exact .step hfirst (ih hstep)

/-- Every interleaving has a trace. -/
theorem exists_trace (h : Reaches g g') : ∃ es, Trace g es g' := by
  induction h with
  | refl => exact ⟨[], .refl g⟩
  | step _ hstep ih =>
    obtain ⟨es, hes⟩ := ih
    obtain ⟨rank, hrank⟩ := hstep
    obtain ⟨e, he⟩ := exists_stepWith hrank
    exact ⟨_, hes.snoc he⟩

theorem Trace.length_eq {es : List (Nat × Effect)} (h : Trace g es g') :
    g'.programs.length = g.programs.length := by
  induction h with
  | refl => rfl
  | step hstep _ ih =>
    obtain ⟨-, p, p', -, -, -, hprograms⟩ := hstep
    rw [ih, hprograms, List.length_set]

/-- What a rank sends and receives in a trace. -/
def seen (rank : Nat) (es : List (Nat × Effect)) : List Effect :=
  Effect.visible ((es.filter (·.1 == rank)).map (·.2))

/-- The messages that a rank receives in a trace, in order, with the channels that they come from. -/
def receipts (rank : Nat) (es : List (Nat × Effect)) : List (Channel × Bytes) :=
  (seen rank es).filterMap Effect.receipt?

/-! ## Rounds -/

/-- Each rank has still to do what is listed for it, and on every channel the messages that are yet to
be received are those under way and those yet to be sent. -/
structure Remaining (a : Nat → α) (g : Group α) (rest : Nat → List Effect) : Prop where
  performs : ∀ r p, g.programs[r]? = some p → Program.Performs r p (rest r) (.done (a r))
  balanced : ∀ channel, g.mail.queue channel ++ (rest channel.source).flatMap (Effect.pushed channel) =
    (rest channel.dest).flatMap (Effect.popped channel)

variable {a : Nat → α} {rest : Nat → List Effect}

/-- A message that is found is the first one that is yet to be received. -/
theorem Remaining.message_eq (h : Remaining a g rest) {rank : Nat} {channel : Channel}
    {m m' : Bytes} {queue : Queues} {es : List Effect} (howned : (Effect.pop channel m).OwnedBy rank)
    (happlies : (Effect.pop channel m).Applies g.mail.queue queue)
    (hrest : rest rank = .pop channel m' :: es) : m = m' := by
  obtain ⟨messages, hqueue, -⟩ := happlies
  have hdest : channel.dest = rank := howned
  have hbalanced := h.balanced channel
  rw [hdest, hrest, hqueue] at hbalanced
  simp only [List.flatMap_cons, Effect.popped, if_true, List.cons_append, List.nil_append] at hbalanced
  exact (List.cons_eq_cons.mp hbalanced).1

/-- The first of what is listed for a rank is taken off, which only that rank can tell. -/
theorem flatMap_update {β : Type} {f : Effect → List β} {rank : Nat} {e : Effect} {es : List Effect}
    (hrest : rest rank = e :: es) {r : Nat} (hf : r ≠ rank → f e = []) :
    (rest r).flatMap f = f e ++ (Function.update rest rank es r).flatMap f := by
  by_cases heq : r = rank
  · rw [heq, hrest, Function.update_self, List.flatMap_cons]
  · rw [Function.update_of_ne heq, hf heq, List.nil_append]

/-- What holds of a program in its new place and of all other programs holds of all of them. -/
theorem forall_getElem?_set {programs : List (Program α)} {rank : Nat} {p' : Program α}
    {Q : Nat → Program α → Prop} (hself : Q rank p')
    (hothers : ∀ r p, r ≠ rank → programs[r]? = some p → Q r p) :
    ∀ r p, (programs.set rank p')[r]? = some p → Q r p := by
  intro r p hp
  by_cases heq : r = rank
  · subst heq
    rw [List.getElem?_set_self'] at hp
    obtain ⟨_, -, rfl⟩ := Option.map_eq_some_iff.mp hp
    exact hself
  · rw [List.getElem?_set_ne (Ne.symm heq)] at hp
    exact hothers r p heq hp

/-- A step takes the first of what is listed. -/
theorem Remaining.step (h : Remaining a g rest) {rank : Nat} {e : Effect}
    (hstep : StepWith rank e g g') : ∃ rest', Remaining a g' rest' ∧
      ∀ r, Effect.visible (rest r) = seen r [(rank, e)] ++ Effect.visible (rest' r) := by
  obtain ⟨-, p, p', hp, hdoes, happlies, hprograms⟩ := hstep
  have howned := hdoes.ownedBy
  have hmessage : ∀ channel m m' es, e = .pop channel m → rest rank = .pop channel m' :: es →
      m = m' := by
    rintro channel m m' es rfl hrest
    exact h.message_eq howned happlies hrest
  rcases hdoes.next (h.performs rank p hp) hmessage with ⟨rfl, hnext⟩ | ⟨es, hrest, hnext⟩
  · refine ⟨rest, ⟨?_, fun channel => ?_⟩, fun r => ?_⟩
    · rw [hprograms]
      exact forall_getElem?_set hnext fun r q _ hq => h.performs r q hq
    · have hqueue : g'.mail.queue = g.mail.queue := happlies
      rw [hqueue]
      exact h.balanced channel
    · by_cases heq : rank = r <;> simp [seen, Effect.visible, heq]
  · refine ⟨Function.update rest rank es, ⟨?_, fun channel => ?_⟩, fun r => ?_⟩
    · rw [hprograms]
      refine forall_getElem?_set ?_ fun r q hne hq => ?_
      · rw [Function.update_self]
        exact hnext
      · rw [Function.update_of_ne hne]
        exact h.performs r q hq
    · have hbalanced := h.balanced channel
      rw [flatMap_update hrest howned.pushed_eq_nil, flatMap_update hrest howned.popped_eq_nil,
        ← List.append_assoc, ← happlies.balance, List.append_assoc] at hbalanced
      exact List.append_cancel_left hbalanced
    · by_cases heq : r = rank
      · subst heq
        rw [Function.update_self, hrest]
        simp [seen, Effect.visible, ← List.filter_append]
      · rw [Function.update_of_ne heq]
        simp [seen, Effect.visible, Ne.symm heq]

theorem seen_append (rank : Nat) (es es' : List (Nat × Effect)) :
    seen rank (es ++ es') = seen rank es ++ seen rank es' := by
  simp [seen, Effect.visible]

/-- What a rank has sent and received at any time is a beginning of what is listed. -/
theorem Remaining.trace {es : List (Nat × Effect)} (h : Remaining a g rest) (htrace : Trace g es g') :
    ∃ rest', Remaining a g' rest' ∧
      ∀ r, Effect.visible (rest r) = seen r es ++ Effect.visible (rest' r) := by
  induction htrace generalizing rest with
  | refl => exact ⟨rest, h, fun _ => rfl⟩
  | @step g _ _ rank e es hstep _ ih =>
    obtain ⟨mid, hmid, hfirst⟩ := h.step hstep
    obtain ⟨rest', hrest', hothers⟩ := ih hmid
    refine ⟨rest', hrest', fun r => ?_⟩
    rw [hfirst r, hothers r, ← List.append_assoc, ← seen_append]
    rfl

/-- What a rank does in a round. -/
def roundEffects (out inc : Nat → List Parcel) (r : Nat) : List Effect :=
  (out r).map (Parcel.sent r) ++ (inc r).map (Parcel.received r)

theorem visible_roundEffects (out inc : Nat → List Parcel) (r : Nat) :
    Effect.visible (roundEffects out inc r) = roundEffects out inc r := by
  refine List.filter_eq_self.mpr fun e he => ?_
  rcases List.mem_append.mp he with hmem | hmem
  · obtain ⟨p, -, rfl⟩ := List.mem_map.mp hmem
    exact decide_eq_true nofun
  · obtain ⟨p, -, rfl⟩ := List.mem_map.mp hmem
    exact decide_eq_true nofun

variable {n : Nat} {P : Nat → Program α} {out inc : Nat → List Parcel}

theorem remaining_of_round (hmatches : Matches n out inc)
    (h : ∀ r < n, (P r).Performs r (roundEffects out inc r) (.done (a r))) :
    Remaining a (start ((List.range n).map P)) fun r => if r < n then roundEffects out inc r else [] where
  performs r p hp := by
    obtain ⟨hr, rfl⟩ := List.getElem?_eq_some_iff.mp hp
    rw [start, List.length_map, List.length_range] at hr
    rw [if_pos hr]
    simp only [start, List.getElem_map, List.getElem_range]
    exact h r hr
  balanced channel := by
    have hsent : (if channel.source < n then roundEffects out inc channel.source else []).flatMap
        (Effect.pushed channel) = (List.range n).flatMap fun r => Parcel.sentOn r (out r) channel := by
      rw [flatMap_sentOn]
      split
      · rw [roundEffects, List.flatMap_append, Parcel.flatMap_pushed_sent,
          Parcel.flatMap_pushed_received, List.append_nil]
      · rfl
    have hreceived : (if channel.dest < n then roundEffects out inc channel.dest else []).flatMap
        (Effect.popped channel) =
          (List.range n).flatMap fun r => Parcel.receivedOn r (inc r) channel := by
      rw [flatMap_receivedOn]
      split
      · rw [roundEffects, List.flatMap_append, Parcel.flatMap_popped_sent,
          Parcel.flatMap_popped_received, List.nil_append]
      · rfl
    rw [hsent, hreceived, hmatches.sentOn_eq]
    rfl

/-- In a round that has ended, each rank has sent its messages and received those of the others,
whatever the interleaving. -/
theorem seen_of_round (hmatches : Matches n out inc)
    (h : ∀ r < n, (P r).Performs r (roundEffects out inc r) (.done (a r)))
    {es : List (Nat × Effect)} (htrace : Trace (start ((List.range n).map P)) es g')
    (hended : g'.results?.isSome) : ∀ r < n, seen r es = roundEffects out inc r := by
  intro r hr
  obtain ⟨rest, hrest, hseen⟩ := (remaining_of_round hmatches h).trace htrace
  obtain ⟨results, hresults⟩ := Option.isSome_iff_exists.mp hended
  have hprograms := results?_eq_some_iff.mp hresults
  have hlength : r < g'.programs.length := by
    rw [htrace.length_eq, start, List.length_map, List.length_range]
    exact hr
  have hnil : rest r = [] := by
    have hp := List.getElem?_eq_getElem hlength
    have hperforms := hrest.performs r _ hp
    simp only [hprograms, List.getElem_map] at hperforms
    exact hperforms.eq_nil_of_done
  have hall := hseen r
  rw [if_pos hr, hnil, visible_roundEffects] at hall
  exact (hall.trans (List.append_nil _)).symm

/-- A rank has received the messages of the round and no others. -/
theorem receipts_of_round (hmatches : Matches n out inc)
    (h : ∀ r < n, (P r).Performs r (roundEffects out inc r) (.done (a r)))
    {es : List (Nat × Effect)} (htrace : Trace (start ((List.range n).map P)) es g')
    (hended : g'.results?.isSome) {r : Nat} (hr : r < n) :
    receipts r es = (inc r).map fun p => (⟨p.peer, r, p.tag⟩, p.bytes) := by
  have hsent : ((out r).map (Parcel.sent r)).filterMap Effect.receipt? = [] := by
    rw [List.filterMap_map]
    exact List.filterMap_eq_nil_iff.mpr fun _ _ => rfl
  rw [receipts, seen_of_round hmatches h htrace hended r hr, roundEffects, List.filterMap_append, hsent,
    List.filterMap_map]
  exact congrFun List.filterMap_eq_map' _

end Group

end HaloMesh
