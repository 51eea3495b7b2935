-- SUMMARY: What a rank comes to whatever it receives, on every branch of its program.
import HaloMesh.Proofs.Comm.Replies

/-!
# Outcomes

A program `Ensures` a property if it ends in a result with the property on every branch, so over every
transport and in every group. For a rank that can fail the property is put together from one of what it
returns and one of the errors that it reports. Nothing is asked of faults. The rules are proved for a rank
with a state, and hold of one without.
-/

namespace HaloMesh

/-! ## Programs -/

namespace Program

variable {α β : Type} {post post' : α → Prop}

/-- Whatever the program receives, it ends in a result with `post`. -/
def Ensures (post : α → Prop) : Program α → Prop
  | .done a => post a
  | .post _ next => next.Ensures post
  | .await _ next => ∀ message, (next message).Ensures post
  | .log _ next => next.Ensures post

theorem ensures_bind_iff {post : β → Prop} {p : Program α} {k : α → Program β} :
    (p.bind k).Ensures post ↔ p.Ensures fun a => (k a).Ensures post := by
  induction p with
  | done a => exact Iff.rfl
  | post request next ih => exact ih
  | await request next ih => exact forall_congr' ih
  | log record next ih => exact ih

theorem Ensures.mono {p : Program α} (hp : p.Ensures post) (h : ∀ a, post a → post' a) :
    p.Ensures post' := by
  induction p with
  | done a => exact h a hp
  | post request next ih => exact ih hp
  | await request next ih => exact fun message => ih message (hp message)
  | log record next ih => exact ih hp

theorem Ensures.of_forall (p : Program α) (h : ∀ a, post a) : p.Ensures post := by
  induction p with
  | done a => exact h a
  | post request next ih => exact ih
  | await request next ih => exact ih
  | log record next ih => exact ih

/-- What is ensured is what happens over a transport. -/
theorem Ensures.runOver {p : Program α} (hp : p.Ensures post) (transport : Transport) (h : History) :
    post (p.runOver transport h).1 := by
  induction p generalizing h with
  | done a => exact hp
  | post request next ih => exact ih hp _
  | await request next ih => exact ih _ (hp _) _
  | log record next ih => exact ih hp _

end Program

/-! ## Programs with a state -/

/-- What is returned has `post`, and what is reported has `error`. -/
def Outcome {α : Type} (error : MeshError → Prop) (post : α → Prop) : Except Failure α → Prop
  | .ok a => post a
  | .error (.reported e) => error e
  | .error (.fault _) => True

theorem Outcome.of_reports {α : Type} {error : MeshError → Prop} {post : α → Prop}
    {x : Except Failure α} (hok : ∀ a, x = .ok a → post a)
    (hreports : ∀ e, x = .error (.reported e) → error e) : Outcome error post x := by
  match x with
  | .ok a => exact hok a rfl
  | .error (.reported e) => exact hreports e rfl
  | .error (.fault cause) => exact trivial

theorem Outcome.of_error {α β : Type} {error : MeshError → Prop} {mid : α → Prop} {post : β → Prop}
    {failure : Failure} (h : Outcome error mid (.error failure)) : Outcome error post (.error failure) := by
  cases failure with
  | reported e => exact h
  | fault cause => exact trivial

namespace CommState

variable {σ α β τ : Type} {error : MeshError → Prop} {post mid : α → Prop}

/-- From every state, whatever the rank receives, it returns something with `post`, reports an error with
`error`, or faults. -/
def Ensures (error : MeshError → Prop) (x : CommState σ α) (post : α → Prop) : Prop :=
  ∀ s, (x.run.run s).Ensures fun ending => Outcome error post ending.1

theorem Ensures.always {x : CommState σ α} (hx : x.Ensures error post) :
    Always (fun _ => True) x fun result _ => Outcome error post result :=
  fun transport h s _ => (hx s).runOver transport h

theorem Ensures.pure {a : α} (h : post a) : (Pure.pure a : CommState σ α).Ensures error post :=
  fun _ => h

theorem Ensures.bind {x : CommState σ α} {f : α → CommState σ β} {post : β → Prop}
    (hx : x.Ensures error mid) (hf : ∀ a, mid a → (f a).Ensures error post) :
    (x >>= f).Ensures error post := by
  intro s
  refine Program.ensures_bind_iff.mpr (Program.Ensures.mono (hx s) fun ending h => ?_)
  obtain ⟨result, t⟩ := ending
  cases result with
  | ok a => exact hf a h t
  | error failure => exact h.of_error

/-- A first step of which only the errors matter. -/
theorem Ensures.andThen {x : CommState σ α} {f : α → CommState σ β} {post : β → Prop}
    (hx : x.Ensures error fun _ => True) (hf : ∀ a, (f a).Ensures error post) :
    (x >>= f).Ensures error post :=
  hx.bind fun a _ => hf a

theorem Ensures.get : (MonadState.get : CommState σ σ).Ensures error fun _ => True := fun _ => trivial

theorem Ensures.set (s : σ) : (MonadStateOf.set s : CommState σ PUnit).Ensures error fun _ => True :=
  fun _ => trivial

theorem Ensures.update (f : σ → σ) : (modify f : CommState σ PUnit).Ensures error fun _ => True :=
  fun _ => trivial

/-- A program that cannot fail. -/
theorem Ensures.lift {p : Program α} (hp : p.Ensures post) :
    (liftM p : CommState σ α).Ensures error post := by
  intro s
  have hcomm : (liftM p : Comm α).run.Ensures (Outcome error post) :=
    Program.ensures_bind_iff.mpr (hp.mono fun _ h => h)
  exact Program.ensures_bind_iff.mpr (hcomm.mono fun _ h => h)

theorem Ensures.of_program (p : Program α) : (liftM p : CommState σ α).Ensures error fun _ => True :=
  .lift (.of_forall p fun _ => trivial)

theorem Ensures.of_fault {x : Except Fault α} (h : ∀ a, x = .ok a → post a) :
    (liftM x : CommState σ α).Ensures error post := by
  intro s
  cases x with
  | ok a => exact h a rfl
  | error cause => exact trivial

theorem Ensures.mapM {f : τ → CommState σ β} {xs : List τ}
    (h : ∀ x ∈ xs, (f x).Ensures error fun _ => True) : (xs.mapM f).Ensures error fun _ => True := by
  induction xs with
  | nil =>
    rw [List.mapM_nil]
    exact .pure trivial
  | cons x xs ih =>
    rw [List.mapM_cons]
    refine (h x (by simp)).andThen fun b => ?_
    exact (ih fun y hy => h y (by simp [hy])).andThen fun bs => .pure trivial

theorem Ensures.forM {f : τ → CommState σ PUnit} (h : ∀ x, (f x).Ensures error fun _ => True)
    (xs : List τ) : (xs.forM f).Ensures error fun _ => True := by
  induction xs with
  | nil => exact .pure trivial
  | cons x xs ih => exact (h x).andThen fun _ => ih

/-- A loop that keeps an invariant. -/
theorem Ensures.foldlM {f : α → τ → CommState σ α} {invariant : α → Prop} {xs : List τ} {a : α}
    (ha : invariant a) (h : ∀ x ∈ xs, ∀ a, invariant a → (f a x).Ensures error invariant) :
    (xs.foldlM f a).Ensures error invariant := by
  induction xs generalizing a with
  | nil =>
    rw [List.foldlM_nil]
    exact .pure ha
  | cons x xs ih =>
    rw [List.foldlM_cons]
    exact (h x (by simp) a ha).bind fun a' ha' => ih ha' fun y hy => h y (by simp [hy])

end CommState

/-! ## Programs that can fail -/

namespace Comm

variable {α β σ : Type} {error : MeshError → Prop} {post mid : α → Prop}

/-- Whatever the rank receives, it returns something with `post`, reports an error with `error`, or
faults. -/
def Ensures (error : MeshError → Prop) (x : Comm α) (post : α → Prop) : Prop :=
  x.run.Ensures (Outcome error post)

/-- The rank ensures the same with any state. -/
theorem ensures_liftM_iff [Nonempty σ] {x : Comm α} :
    (liftM x : CommState σ α).Ensures error post ↔ x.Ensures error post := by
  have hlift : ∀ s : σ, ((liftM x : CommState σ α).run.run s).Ensures (fun ending =>
      Outcome error post ending.1) ↔ x.Ensures error post := fun _ => Program.ensures_bind_iff
  exact ⟨fun h => (hlift (Classical.arbitrary σ)).mp (h _), fun h s => (hlift s).mpr h⟩

theorem Ensures.pure {a : α} (h : post a) : (Pure.pure a : Comm α).Ensures error post := h

theorem Ensures.bind {x : Comm α} {f : α → Comm β} {post : β → Prop} (hx : x.Ensures error mid)
    (hf : ∀ a, mid a → (f a).Ensures error post) : (x >>= f).Ensures error post := by
  simp only [← ensures_liftM_iff (σ := Unit), CommState.liftM_bind] at hx hf ⊢
  exact hx.bind hf

/-- A first step of which only the errors matter. -/
theorem Ensures.andThen {x : Comm α} {f : α → Comm β} {post : β → Prop}
    (hx : x.Ensures error fun _ => True) (hf : ∀ a, (f a).Ensures error post) :
    (x >>= f).Ensures error post :=
  hx.bind fun a _ => hf a

theorem Ensures.of_program (p : Program α) : (liftM p : Comm α).Ensures error fun _ => True :=
  (ensures_liftM_iff (σ := Unit)).mp (.of_program p)

theorem Ensures.of_result {x : Except Failure α} (h : Outcome error post x) :
    (liftM x : Comm α).Ensures error post := by
  cases x with
  | ok a => exact h
  | error failure => exact h

theorem Ensures.of_fault {x : Except Fault α} (h : ∀ a, x = .ok a → post a) :
    (liftM x : Comm α).Ensures error post :=
  (ensures_liftM_iff (σ := Unit)).mp (.of_fault h)

theorem Ensures.of_check {x : Except MeshError α} (hok : ∀ a, x = .ok a → post a)
    (herror : ∀ e, x = .error e → error e) : (liftM x : Comm α).Ensures error post := by
  cases x with
  | ok a => exact hok a rfl
  | error e => exact herror e rfl

theorem Ensures.report {e : MeshError} (h : error e) : (report e : Comm α).Ensures error post := h

theorem Ensures.reportAny {first : Option MeshError} (h : ∀ e, first = some e → error e) :
    (reportAny first).Ensures error fun _ => True := by
  cases first with
  | none => exact trivial
  | some e => exact h e rfl

theorem Ensures.mapM {f : α → Comm β} {xs : List α}
    (h : ∀ x ∈ xs, (f x).Ensures error fun _ => True) :
    (xs.mapM f).Ensures error fun _ => True := by
  simp only [← ensures_liftM_iff (σ := Unit), CommState.liftM_mapM] at h ⊢
  exact .mapM h

/-- A loop that keeps an invariant. -/
theorem Ensures.foldlM {f : σ → α → Comm σ} {invariant : σ → Prop} {xs : List α} {s : σ}
    (hs : invariant s) (h : ∀ x ∈ xs, ∀ s, invariant s → (f s x).Ensures error invariant) :
    (xs.foldlM f s).Ensures error invariant := by
  simp only [← ensures_liftM_iff (σ := Unit), CommState.liftM_foldlM] at h ⊢
  exact .foldlM hs h

end Comm

theorem CommState.Ensures.of_comm {σ α : Type} {error : MeshError → Prop} {post : α → Prop} {x : Comm α}
    (hx : x.Ensures error post) : (liftM x : CommState σ α).Ensures error post :=
  fun _ => Program.ensures_bind_iff.mpr (Program.Ensures.mono hx fun _ h => h)

end HaloMesh
