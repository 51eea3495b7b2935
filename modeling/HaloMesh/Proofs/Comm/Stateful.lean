-- SUMMARY: What a rank with a state of its own sends and receives on the way to a result.
import HaloMesh.Proofs.Comm.Round

/-!
# Results of a rank with a state

A program with a state `Yields` a result and a new state if it sends and receives the listed messages and
then returns both. The lemmas follow the ways in which programs are put together: sequences, lists, loops,
and computations that communicate nothing.

A program without a state can be run with one, which it leaves as it is. Whatever puts programs together
is kept by that, so the rules for programs with a state are all that has to be proved.
-/

namespace HaloMesh

instance : LawfulMonad Program :=
  .mk' Program (fun p => Program.bind_done p) (fun _ _ => rfl) fun p f g => Program.bind_assoc p f g

namespace CommState

variable {σ τ α β : Type} {rank : Nat} {s t u : σ}

/-! ## Programs without a state -/

theorem run_liftM (x : Comm α) (s : σ) :
    (liftM x : CommState σ α).run.run s = x.run.bind fun result => .done (result, s) := rfl

theorem liftM_pure (a : α) : (liftM (pure a : Comm α) : CommState σ α) = pure a := rfl

theorem liftM_bind (x : Comm α) (f : α → Comm β) :
    (liftM (x >>= f) : CommState σ β) = liftM x >>= fun a => liftM (f a) := by
  funext s
  refine (Program.bind_assoc ..).trans (Eq.trans ?_ (Program.bind_assoc ..).symm)
  refine congrArg x.run.bind (funext fun result => ?_)
  cases result with
  | ok a => rfl
  | error failure => rfl

theorem liftM_mapM (f : α → Comm β) (xs : List α) :
    (liftM (xs.mapM f) : CommState σ (List β)) = xs.mapM fun x => liftM (f x) := by
  induction xs with
  | nil => simp only [List.mapM_nil, liftM_pure]
  | cons x xs ih => simp only [List.mapM_cons, liftM_bind, liftM_pure, ih]

theorem liftM_foldlM (f : τ → α → Comm τ) (xs : List α) (a : τ) :
    (liftM (xs.foldlM f a) : CommState σ τ) = xs.foldlM (fun a x => liftM (f a x)) a := by
  induction xs generalizing a with
  | nil => simp only [List.foldlM_nil, liftM_pure]
  | cons x xs ih => simp only [List.foldlM_cons, liftM_bind, ih]

/-! ## Sequences -/

/-- A first step without actions. -/
theorem run_bind_of_done {x : CommState σ α} {a : α} (hx : x.run.run s = .done (.ok a, t))
    (f : α → CommState σ β) : (x >>= f).run.run s = (f a).run.run t := by
  have hbind : (x >>= f).run.run s =
      x.run.run s >>= fun ending => (ExceptT.bindCont f ending.1).run ending.2 := rfl
  rw [hbind, hx]
  rfl

/-- The rank performs actions with the listed effects and returns a result and a new state. -/
def Yields (rank : Nat) (x : CommState σ α) (s : σ) (es : List Effect) (a : α) (t : σ) : Prop :=
  Program.Performs rank (x.run.run s) es (.done (.ok a, t))

theorem Yields.pure (rank : Nat) (a : α) (s : σ) : Yields rank (Pure.pure a) s [] a s := .refl _

/-- A first step, and what the rest performs, whether it ends in a result or in a failure. -/
theorem Yields.andThen {x : CommState σ α} {f : α → CommState σ β} {es es' : List Effect} {a : α}
    {q : Program (Except Failure β × σ)} (h : Yields rank x s es a t)
    (h' : Program.Performs rank ((f a).run.run t) es' q) :
    Program.Performs rank ((x >>= f).run.run s) (es ++ es') q :=
  (Program.Performs.bind h _).trans h'

/-- A first step that does all that is to be done. -/
theorem Yields.andThen_silent {x : CommState σ α} {f : α → CommState σ β} {es : List Effect} {a : α}
    {q : Program (Except Failure β × σ)} (h : Yields rank x s es a t)
    (h' : Program.Performs rank ((f a).run.run t) [] q) :
    Program.Performs rank ((x >>= f).run.run s) es q := by
  rw [← List.append_nil es]
  exact h.andThen h'

theorem Yields.bind {x : CommState σ α} {f : α → CommState σ β} {es es' : List Effect} {a : α} {b : β}
    (h : Yields rank x s es a t) (h' : Yields rank (f a) t es' b u) :
    Yields rank (x >>= f) s (es ++ es') b u :=
  h.andThen h'

/-- A first step without effects. -/
theorem Yields.bind_silent {x : CommState σ α} {f : α → CommState σ β} {es : List Effect} {a : α}
    {b : β} (h : Yields rank x s [] a t) (h' : Yields rank (f a) t es b u) :
    Yields rank (x >>= f) s es b u :=
  h.bind h'

/-- A last step without effects. -/
theorem Yields.then_silent {x : CommState σ α} {f : α → CommState σ β} {es : List Effect} {a : α}
    {b : β} (h : Yields rank x s es a t) (h' : Yields rank (f a) t [] b u) :
    Yields rank (x >>= f) s es b u :=
  h.andThen_silent h'

/-! ## Lifted programs -/

/-- A program that cannot fail. -/
theorem Yields.lift {p : Program α} {es : List Effect} {a : α} (h : p.Performs rank es (.done a))
    (s : σ) : Yields rank (liftM p : CommState σ α) s es a s :=
  Program.Performs.bind (h.bind fun a => (.done (.ok a) : Program (Except Failure α))) fun result =>
    .done (result, s)

theorem Yields.of_fault {x : Except Fault α} {a : α} (h : x = .ok a) (rank : Nat) (s : σ) :
    Yields rank (liftM x : CommState σ α) s [] a s := by
  subst h
  exact .refl _

theorem Yields.of_failure {x : Except Failure α} {a : α} (h : x = .ok a) (rank : Nat) (s : σ) :
    Yields rank (liftM x : CommState σ α) s [] a s := by
  subst h
  exact .refl _

theorem Yields.of_error {x : Except MeshError α} {a : α} (h : x = .ok a) (rank : Nat) (s : σ) :
    Yields rank (liftM x : CommState σ α) s [] a s := by
  subst h
  exact .refl _

/-- A computation that can fail has no effects. -/
theorem performs_liftM (rank : Nat) (x : Except Failure α) (s : σ) :
    Program.Performs rank ((liftM x : CommState σ α).run.run s) [] (.done (x, s)) := by
  cases x with
  | ok a => exact .refl _
  | error failure => exact .refl _

/-! ## The state -/

theorem Yields.get (rank : Nat) (s : σ) :
    Yields rank (MonadState.get : CommState σ σ) s [] s s := .refl _

theorem Yields.set (rank : Nat) (s t : σ) :
    Yields rank (MonadStateOf.set t : CommState σ PUnit) s [] ⟨⟩ t := .refl _

theorem Yields.update (rank : Nat) (f : σ → σ) (s : σ) :
    Yields rank (modify f : CommState σ PUnit) s [] ⟨⟩ (f s) := .refl _

/-! ## Loops -/

/-- A list of actions that leave the state as it is. -/
theorem Yields.mapM {f : α → CommState σ β} {e : α → List Effect} {g : α → β} {xs : List α}
    (h : ∀ x ∈ xs, Yields rank (f x) s (e x) (g x) s) :
    Yields rank (xs.mapM f) s (xs.flatMap e) (xs.map g) s := by
  induction xs with
  | nil =>
    rw [List.mapM_nil]
    exact .pure rank [] s
  | cons x xs ih =>
    rw [List.mapM_cons, List.flatMap_cons, List.map_cons]
    refine (h x (by simp)).bind ?_
    exact (ih fun y hy => h y (by simp [hy])).then_silent (.pure rank _ s)

/-- A loop that keeps an invariant, and leaves the state as it is. -/
theorem Yields.foldlM {f : τ → α → CommState σ τ} {e : α → List Effect} {g : τ → α → τ} (P : τ → Prop)
    {xs : List α} {a : τ} (ha : P a)
    (h : ∀ x ∈ xs, ∀ a, P a → Yields rank (f a x) s (e x) (g a x) s ∧ P (g a x)) :
    Yields rank (xs.foldlM f a) s (xs.flatMap e) (xs.foldl g a) s := by
  induction xs generalizing a with
  | nil =>
    rw [List.foldlM_nil]
    exact .pure rank a s
  | cons x xs ih =>
    rw [List.foldlM_cons, List.flatMap_cons, List.foldl_cons]
    obtain ⟨hstep, hkeep⟩ := h x (by simp) a ha
    exact hstep.bind (ih hkeep fun y hy => h y (by simp [hy]))

/-! ## Groups -/

/-- All ranks of a group come to results and new states of their own. -/
def Completes {α σ : Type} (n : Nat) (x : Nat → CommState σ α) (s : Nat → σ)
    (a : Nat → Except Failure α) (t : Nat → σ) : Prop :=
  HaloMesh.Completes n (fun r => (x r).run.run (s r)) fun r => (a r, t r)

namespace Completes

variable {n : Nat} {x : Nat → CommState σ α} {s t u : Nat → σ}

/-- Steps of the ranks without effects. -/
theorem of_silent {a : Nat → α} (h : ∀ r < n, Yields r (x r) (s r) [] (a r) (t r)) :
    Completes n x s (fun r => .ok (a r)) t :=
  HaloMesh.Completes.of_silent h

/-- All ranks come to results that they already have, or fail. -/
theorem of_result {y a : Nat → Except Failure α} (h : ∀ r < n, y r = a r) (s : Nat → σ) :
    Completes n (fun r => liftM (y r)) s a s := by
  refine HaloMesh.Completes.of_silent fun r hr => ?_
  rw [← h r hr]
  exact performs_liftM r (y r) (s r)

/-- All ranks make a check. -/
theorem of_check {y : Nat → Except MeshError α} {a : Nat → Except Failure α}
    (h : ∀ r < n, (y r).mapError .reported = a r) (s : Nat → σ) :
    Completes n (fun r => liftM (y r)) s a s :=
  of_result h s

/-- All ranks run programs that cannot fail. -/
theorem lift {P : Nat → Program α} {a : Nat → α} (h : HaloMesh.Completes n P a) (s : Nat → σ) :
    Completes n (fun r => liftM (P r)) s (fun r => .ok (a r)) s :=
  HaloMesh.Completes.bind (HaloMesh.Completes.bind h (.done n fun r => Except.ok (a r)))
    (.done n fun r => (Except.ok (a r), s r))

/-- All ranks go on from their results. -/
theorem bind {a : Nat → α} (h : Completes n x s (fun r => .ok (a r)) t)
    {f : Nat → α → CommState σ β} {b : Nat → Except Failure β}
    (h' : Completes n (fun r => f r (a r)) t b u) : Completes n (fun r => x r >>= f r) s b u :=
  HaloMesh.Completes.bind h h'

/-- All ranks fail, and do not go on. -/
theorem fail {e : Nat → Failure} (h : Completes n x s (fun r => .error (e r)) t)
    (f : Nat → α → CommState σ β) :
    Completes n (fun r => x r >>= f r) s (fun r => .error (e r)) t :=
  HaloMesh.Completes.bind h (.done n _)

/-- All ranks put another result in the place of theirs, if they do not fail. -/
theorem replace {a : Nat → Except Failure α} (h : Completes n x s a t) (b : β) :
    Completes n (fun r => do
      let _ ← x r
      return b) s (fun r => (a r).map fun _ => b) t := by
  refine HaloMesh.Completes.bind h (HaloMesh.Completes.of_silent fun r _ => ?_)
  dsimp only
  cases a r with
  | ok a => exact .refl _
  | error failure => exact .refl _

end Completes

end CommState

end HaloMesh
