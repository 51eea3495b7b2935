-- SUMMARY: What a rank with a state of its own leaves behind over a transport that answers in any way.
import HaloMesh.Proofs.Comm.Transport

/-!
# Runs over a transport

Over a transport a rank with a state comes to a result, a new state and some events. `Ends` states all
three, for a run whose course is known up to the replies. `Always` states what holds of result and state
whatever the transport replies, also if a step fails, and asks nothing about the events.
-/

namespace HaloMesh

/-! ## Histories -/

namespace History

/-- The history after more events, given in the order in which they happen. -/
def extend (h : History) (es : List Event) : History := es.reverse ++ h

variable {h : History} {es es' : List Event}

theorem extend_append (h : History) (es es' : List Event) :
    h.extend (es ++ es') = (h.extend es).extend es' := by
  rw [extend, extend, extend, List.reverse_append, List.append_assoc]

theorem sent_extend (h : History) (es : List Event) :
    (h.extend es).sent = h.sent ++ sent es.reverse := by
  rw [extend, sent, List.reverse_append, List.filterMap_append, List.reverse_reverse, sent, sent,
    List.reverse_reverse]

/-- The events of requests that are posted. -/
abbrev posts (requests : List Request) : List Event := requests.map .posted

/-- The events of requests that are completed, each with what it yields. -/
abbrev completions (requests : List (Request × Option Bytes)) : List Event :=
  requests.map fun (request, message) => .completed request message

/-- Nothing but a send that is posted counts as sent. -/
theorem sent_extend_of_silent
    (hes : ∀ e ∈ es, ∀ peer tag payload, e ≠ .posted (.send peer tag payload)) :
    (h.extend es).sent = h.sent := by
  have hnone : sent es.reverse = [] := by
    rw [sent, List.reverse_reverse, List.filterMap_eq_nil_iff]
    intro e he
    match e with
    | .posted (.send peer tag payload) => exact absurd rfl (hes _ he peer tag payload)
    | .posted (.receive ..) | .completed .. | .logged .. => rfl
  rw [sent_extend, hnone, List.append_nil]

/-- The messages that are sent one after the other. -/
theorem sent_extend_sends (h : History) (messages : List (Nat × Nat × Bytes)) :
    (h.extend (posts (messages.map fun (peer, tag, payload) => .send peer tag payload))).sent =
      h.sent ++ messages := by
  have hsome : sent (posts (messages.map fun (peer, tag, payload) =>
      .send peer tag payload)).reverse = messages := by
    rw [sent, List.reverse_reverse, posts, List.map_map, List.filterMap_map]
    exact List.filterMap_some
  rw [sent_extend, hsome]

end History

namespace Program

variable {transport : Transport} {h : History}

/-- Sends are completed without a message. -/
theorem runOver_completeAll_send {sends : List Request}
    (hsends : ∀ request ∈ sends, ∃ peer tag payload, request = .send peer tag payload) :
    (completeAll sends).runOver transport h = (sends.map fun _ => none,
      h.extend (History.completions (sends.map fun request => (request, none)))) := by
  induction sends generalizing h with
  | nil => rfl
  | cons request sends ih =>
    obtain ⟨peer, tag, payload, rfl⟩ := hsends request (by simp)
    have hrest := @ih (.completed (.send peer tag payload) none :: h)
      fun request hmem => hsends request (by simp [hmem])
    rw [completeAll, runOver, runOver_bind]
    simp only [outcome, hrest]
    exact congrArg (Prod.mk _) (History.extend_append h [.completed _ none] _).symm

end Program

namespace CommState

variable {σ α β γ : Type} {transport : Transport} {h : History} {s t u : σ} {es es' : List Event}

theorem runOver_bind (x : CommState σ α) (f : α → CommState σ β) (s : σ) :
    ((x >>= f).run.run s).runOver transport h =
      match (x.run.run s).runOver transport h with
      | ((.ok a, t), after) => ((f a).run.run t).runOver transport after
      | ((.error failure, t), after) => ((.error failure, t), after) := by
  have hbind : ((x >>= f).run.run s).runOver transport h =
      ((ExceptT.bindCont f ((x.run.run s).runOver transport h).1.1).run
        ((x.run.run s).runOver transport h).1.2).runOver transport
          ((x.run.run s).runOver transport h).2 := Program.runOver_bind transport (x.run.run s) _ h
  rw [hbind]
  generalize (x.run.run s).runOver transport h = ending
  obtain ⟨⟨result, t⟩, after⟩ := ending
  cases result with
  | ok a => rfl
  | error failure => rfl

theorem runOver_lift (p : Program α) (s : σ) :
    ((liftM p : CommState σ α).run.run s).runOver transport h =
      ((.ok (p.runOver transport h).1, s), (p.runOver transport h).2) := by
  have hlift : ((liftM p : CommState σ α).run.run s).runOver transport h = _ :=
    Program.runOver_bind transport (liftM p : Comm α).run (fun result => .done (result, s)) h
  rw [hlift, Comm.Ends.lift p]
  rfl

/-! ## Known courses -/

/-- The rank comes to a result and a new state, and these events happen on the way. -/
def Ends (x : CommState σ α) (transport : Transport) (h : History) (s : σ) (es : List Event)
    (result : Except Failure α) (t : σ) : Prop :=
  (x.run.run s).runOver transport h = ((result, t), h.extend es)

theorem Ends.pure (a : α) : (Pure.pure a : CommState σ α).Ends transport h s [] (.ok a) s := rfl

/-- A first step that returns, and what the rest comes to. -/
theorem Ends.bind {x : CommState σ α} {f : α → CommState σ β} {a : α} {result : Except Failure β}
    (hx : x.Ends transport h s es (.ok a) t)
    (hf : (f a).Ends transport (h.extend es) t es' result u) :
    (x >>= f).Ends transport h s (es ++ es') result u := by
  unfold Ends at hx hf ⊢
  rw [runOver_bind, hx, History.extend_append]
  exact hf

/-- A first step without events. -/
theorem Ends.bind_silent {x : CommState σ α} {f : α → CommState σ β} {a : α}
    {result : Except Failure β} (hx : x.Ends transport h s [] (.ok a) t)
    (hf : (f a).Ends transport h t es result u) : (x >>= f).Ends transport h s es result u :=
  hx.bind hf

/-- A last step without events. -/
theorem Ends.then_silent {x : CommState σ α} {f : α → CommState σ β} {a : α}
    {result : Except Failure β} (hx : x.Ends transport h s es (.ok a) t)
    (hf : (f a).Ends transport (h.extend es) t [] result u) :
    (x >>= f).Ends transport h s es result u := by
  rw [← List.append_nil es]
  exact hx.bind hf

/-- A first step that fails. -/
theorem Ends.fail {x : CommState σ α} {failure : Failure}
    (hx : x.Ends transport h s es (.error failure) t) (f : α → CommState σ β) :
    (x >>= f).Ends transport h s es (.error failure) t := by
  unfold Ends at hx ⊢
  rw [runOver_bind, hx]

theorem Ends.of_result (x : Except Failure α) :
    (liftM x : CommState σ α).Ends transport h s [] x s := by
  cases x with
  | ok a => rfl
  | error failure => rfl

theorem Ends.of_fault {x : Except Fault α} {a : α} (hx : x = .ok a) :
    (liftM x : CommState σ α).Ends transport h s [] (.ok a) s := by
  subst hx
  rfl

theorem Ends.of_failure {x : Except Failure α} {a : α} (hx : x = .ok a) :
    (liftM x : CommState σ α).Ends transport h s [] (.ok a) s := by
  subst hx
  rfl

theorem Ends.of_error {x : Except MeshError α} {a : α} (hx : x = .ok a) :
    (liftM x : CommState σ α).Ends transport h s [] (.ok a) s := by
  subst hx
  rfl

theorem Ends.of_reported {x : Except MeshError α} {error : MeshError} (hx : x = .error error) :
    (liftM x : CommState σ α).Ends transport h s [] (.error (.reported error)) s := by
  subst hx
  rfl

theorem Ends.lift {p : Program α} {a : α} (hp : p.runOver transport h = (a, h.extend es)) :
    (liftM p : CommState σ α).Ends transport h s es (.ok a) s := by
  unfold Ends
  rw [runOver_lift, hp]

theorem Ends.issue (request : Request) : (liftM (Program.issue request) : CommState σ Unit).Ends
    transport h s [.posted request] (.ok ()) s :=
  .lift rfl

theorem Ends.issueAll (requests : List Request) :
    (liftM (Program.issueAll requests) : CommState σ Unit).Ends transport h s (History.posts requests)
      (.ok ()) s := by
  refine .lift ?_
  induction requests generalizing h with
  | nil => rfl
  | cons request requests ih =>
    rw [Program.issueAll, Program.runOver, ih]
    exact congrArg (Prod.mk _) (History.extend_append h [.posted request] _).symm

theorem Ends.record (level : LogLevel) (text : String) :
    (liftM (Program.record level text) : CommState σ Unit).Ends transport h s
      [.logged ⟨level, text⟩] (.ok ()) s :=
  .lift rfl

theorem Ends.complete (request : Request) :
    (liftM (Program.complete request) : CommState σ (Option Bytes)).Ends transport h s
      [.completed request (Program.outcome transport h request)]
      (.ok (Program.outcome transport h request)) s :=
  .lift rfl

theorem Ends.get : (MonadState.get : CommState σ σ).Ends transport h s [] (.ok s) s := rfl

theorem Ends.set (t : σ) :
    (MonadStateOf.set t : CommState σ PUnit).Ends transport h s [] (.ok ⟨⟩) t := rfl

theorem Ends.update (f : σ → σ) :
    (modify f : CommState σ PUnit).Ends transport h s [] (.ok ⟨⟩) (f s) := rfl

/-- A list of actions that leave the state as it is. -/
theorem Ends.mapM {f : α → CommState σ β} {e : α → List Event} {g : α → β} {xs : List α}
    (hf : ∀ x ∈ xs, ∀ h, (f x).Ends transport h s (e x) (.ok (g x)) s) :
    (xs.mapM f).Ends transport h s (xs.flatMap e) (.ok (xs.map g)) s := by
  induction xs generalizing h with
  | nil =>
    rw [List.mapM_nil]
    exact .pure []
  | cons x xs ih =>
    rw [List.mapM_cons, List.flatMap_cons, List.map_cons]
    refine (hf x (by simp) h).bind ?_
    exact (ih fun y hy => hf y (by simp [hy])).then_silent (.pure _)

/-- A loop whose body always returns, and leaves the state as it is. -/
theorem Ends.foldlM {f : γ → α → CommState σ γ} {e : α → List Event} {g : γ → α → γ} {xs : List α} {c : γ}
    (hf : ∀ x ∈ xs, ∀ c h, (f c x).Ends transport h s (e x) (.ok (g c x)) s) :
    (xs.foldlM f c).Ends transport h s (xs.flatMap e) (.ok (xs.foldl g c)) s := by
  induction xs generalizing c h with
  | nil =>
    rw [List.foldlM_nil]
    exact .pure c
  | cons x xs ih =>
    rw [List.foldlM_cons, List.flatMap_cons, List.foldl_cons]
    exact (hf x (by simp) c h).bind (ih fun y hy => hf y (by simp [hy]))

/-! ## Any course -/

/-- From a state with `pre` the rank comes to a result and a state with `post`, over every transport and
after any history. -/
def Always (pre : σ → Prop) (x : CommState σ α) (post : Except Failure α → σ → Prop) : Prop :=
  ∀ transport h s, pre s → post ((x.run.run s).runOver transport h).1.1
    ((x.run.run s).runOver transport h).1.2

variable {pre : σ → Prop} {post : Except Failure β → σ → Prop} {f : α → CommState σ β}

theorem Always.pure (b : β) (hpost : ∀ s, pre s → post (.ok b) s) :
    Always pre (Pure.pure b : CommState σ β) post :=
  fun _ _ s hs => hpost s hs

theorem Always.update {post : Except Failure PUnit → σ → Prop} (f : σ → σ)
    (hpost : ∀ s, pre s → post (.ok ⟨⟩) (f s)) :
    Always pre (modify f : CommState σ PUnit) post :=
  fun _ _ s hs => hpost s hs

theorem Always.set {post : Except Failure PUnit → σ → Prop} (t : σ) (hpost : post (.ok ⟨⟩) t) :
    Always pre (MonadStateOf.set t : CommState σ PUnit) post :=
  fun _ _ _ _ => hpost

/-- A result that is known already. -/
theorem Always.of_result (x : Except Failure β) (hpost : ∀ s, pre s → post x s) :
    Always pre (liftM x : CommState σ β) post := by
  intro transport h s hs
  rw [Ends.of_result x]
  exact hpost s hs

theorem Always.of_check (x : Except MeshError β) (hpost : ∀ s, pre s → post (x.mapError .reported) s) :
    Always pre (liftM x : CommState σ β) post := by
  intro transport h s hs
  have hpost := hpost s hs
  cases x with
  | ok b => exact hpost
  | error error => exact hpost

theorem Always.of_fault (x : Except Fault β) (hpost : ∀ s, pre s → post (x.mapError .fault) s) :
    Always pre (liftM x : CommState σ β) post := by
  intro transport h s hs
  have hpost := hpost s hs
  cases x with
  | ok b => exact hpost
  | error cause => exact hpost

theorem Always.of_known {x : CommState σ β} (hx : ∀ s, pre s → Always (· = s) x post) :
    Always pre x post :=
  fun transport h s hs => hx s hs transport h s rfl

theorem Always.mono {x : CommState σ α} {mid mid' : Except Failure α → σ → Prop}
    (hx : Always pre x mid) (h : ∀ result s, mid result s → mid' result s) : Always pre x mid' :=
  fun transport history s hs => h _ _ (hx transport history s hs)

theorem Always.of_pre {pre' : σ → Prop} {x : CommState σ β} (hx : Always pre x post)
    (h : ∀ s, pre' s → pre s) : Always pre' x post :=
  fun transport history s hs => hx transport history s (h s hs)

theorem Always.and {x : CommState σ β} {pre' : σ → Prop} {post' : Except Failure β → σ → Prop}
    (hx : Always pre x post) (hx' : Always pre' x post') :
    Always (fun s => pre s ∧ pre' s) x fun result s => post result s ∧ post' result s :=
  fun transport h s hs => ⟨hx transport h s hs.1, hx' transport h s hs.2⟩

/-- A first step that may fail, and the rest if it does not. -/
theorem Always.bind {x : CommState σ α} {mid : Except Failure α → σ → Prop} (hx : Always pre x mid)
    (hok : ∀ a, Always (mid (.ok a)) (f a) post) (herror : ∀ e t, mid (.error e) t → post (.error e) t) :
    Always pre (x >>= f) post := by
  intro transport h s hs
  have hmid := hx transport h s hs
  rw [runOver_bind]
  generalize (x.run.run s).runOver transport h = ending at hmid
  obtain ⟨⟨result, t⟩, after⟩ := ending
  cases result with
  | ok a => exact hok a transport after t hmid
  | error failure => exact herror failure t hmid

/-- The state is read, and from then on it is known. -/
theorem Always.get_bind {f : σ → CommState σ β} (hf : ∀ s, pre s → Always (· = s) (f s) post) :
    Always pre (MonadState.get >>= f) post := by
  intro transport h s hs
  rw [runOver_bind]
  exact hf s hs transport h s rfl

theorem Always.set_bind {t : σ} {f : PUnit → CommState σ β} (hf : Always (· = t) (f ⟨⟩) post) :
    Always pre (MonadStateOf.set t >>= f) post := by
  intro transport h s _
  rw [runOver_bind]
  exact hf transport h t rfl

theorem Always.update_bind {s : σ} {g : σ → σ} {f : PUnit → CommState σ β}
    (hf : Always (· = g s) (f ⟨⟩) post) : Always (· = s) (modify g >>= f) post := by
  rintro transport h _ rfl
  rw [runOver_bind]
  exact hf transport h _ rfl

/-- A computation that leaves the state as it is. -/
theorem Always.result_bind {x : Except Failure α} (hok : ∀ a, x = .ok a → Always pre (f a) post)
    (herror : ∀ e, x = .error e → ∀ s, pre s → post (.error e) s) :
    Always pre (liftM x >>= f) post := by
  intro transport h s hs
  rw [runOver_bind]
  cases x with
  | ok a => exact hok a rfl transport h s hs
  | error failure => exact herror failure rfl s hs

theorem Always.check_bind {x : Except MeshError α} (hok : ∀ a, x = .ok a → Always pre (f a) post)
    (herror : ∀ e, x = .error e → ∀ s, pre s → post (.error (.reported e)) s) :
    Always pre (liftM x >>= f) post := by
  intro transport h s hs
  rw [runOver_bind]
  cases x with
  | ok a => exact hok a rfl transport h s hs
  | error error => exact herror error rfl s hs

theorem Always.fault_bind {x : Except Fault α} (hok : ∀ a, x = .ok a → Always pre (f a) post)
    (herror : ∀ e, x = .error e → ∀ s, pre s → post (.error (.fault e)) s) :
    Always pre (liftM x >>= f) post := by
  intro transport h s hs
  rw [runOver_bind]
  cases x with
  | ok a => exact hok a rfl transport h s hs
  | error cause => exact herror cause rfl s hs

/-- A program that cannot fail leaves the state as it is. -/
theorem Always.lift_bind {p : Program α} (hf : ∀ a, Always pre (f a) post) :
    Always pre (liftM p >>= f) post := by
  intro transport h s hs
  rw [runOver_bind, runOver_lift]
  exact hf _ transport _ s hs

/-- A run on another state, given back with its result. -/
theorem Always.run_bind {τ : Type} {x : CommState τ α} {preOf : τ → Prop}
    {postOf : Except Failure α → τ → Prop} (hx : Always preOf x postOf) {t : τ} (ht : preOf t)
    {f : Except Failure α × τ → CommState σ β}
    (hf : ∀ result t, postOf result t → Always pre (f (result, t)) post) :
    Always pre (liftM (x.run.run t) >>= f) post := by
  intro transport h s hs
  rw [runOver_bind, runOver_lift]
  exact hf _ _ (hx transport h t ht) transport _ s hs

end CommState

end HaloMesh
