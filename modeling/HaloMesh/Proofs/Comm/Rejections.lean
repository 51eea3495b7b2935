-- SUMMARY: A rank that reports an error of some kind before it has done anything.
import HaloMesh.Proofs.Comm.Outcomes

/-!
# Rejections

A rank rejects what it is asked for if it reports an error, leaves its state as it is and lets nothing
happen. A sequence of steps rejects on some errors if its first steps do and no later one reports them. So
the checks for these errors have to come first.
-/

namespace HaloMesh

/-- A run adds events to a history and takes none away. -/
theorem Program.exists_extend {α : Type} (p : Program α) (transport : Transport) (h : History) :
    ∃ es, (p.runOver transport h).2 = h.extend es := by
  induction p generalizing h with
  | done a => exact ⟨[], rfl⟩
  | post request next ih =>
    obtain ⟨es, hes⟩ := ih (.posted request :: h)
    exact ⟨_, hes.trans (History.extend_append h [.posted request] es).symm⟩
  | await request next ih =>
    obtain ⟨es, hes⟩ := ih (outcome transport h request)
      (.completed request (outcome transport h request) :: h)
    exact ⟨_, hes.trans (History.extend_append h [.completed request _] es).symm⟩
  | log record next ih =>
    obtain ⟨es, hes⟩ := ih (.logged record :: h)
    exact ⟨_, hes.trans (History.extend_append h [.logged record] es).symm⟩

namespace CommState

variable {σ α β : Type} {pre : σ → Prop} {error : MeshError → Prop}

/-- The rank reports this error. -/
def Reports (x : CommState σ α) (transport : Transport) (h : History) (s : σ) (e : MeshError) : Prop :=
  ((x.run.run s).runOver transport h).1.1 = .error (.reported e)

theorem exists_ends (x : CommState σ α) (transport : Transport) (h : History) (s : σ) :
    ∃ es result t, x.Ends transport h s es result t := by
  obtain ⟨es, hes⟩ := (x.run.run s).exists_extend transport h
  exact ⟨es, _, _, Prod.ext rfl hes⟩

theorem Ends.eq_of_reports {x : CommState σ α} {transport : Transport} {h : History} {s t : σ}
    {es : List Event} {result : Except Failure α} {e : MeshError}
    (hends : x.Ends transport h s es result t) (hreports : x.Reports transport h s e) :
    result = .error (.reported e) := by
  rwa [Reports, hends] at hreports

theorem Ends.reports {x : CommState σ α} {transport : Transport} {h : History} {s t : σ}
    {es : List Event} {e : MeshError} (hends : x.Ends transport h s es (.error (.reported e)) t) :
    x.Reports transport h s e := by
  rw [Reports, hends]

/-- When the rank reports an error with `error`, its state is as before and nothing has happened. -/
def Rejects (pre : σ → Prop) (error : MeshError → Prop) (x : CommState σ α) : Prop :=
  ∀ transport h s, pre s → ∀ e, error e → x.Reports transport h s e →
    x.Ends transport h s [] (.error (.reported e)) s

/-- An outcome that is no such error. -/
abbrev Spares (error : MeshError → Prop) (result : Except Failure α) : Prop :=
  Outcome (fun e => ¬ error e) (fun _ => True) result

/-- From a state with `inv` the rank reports no such error, and it returns in a state with `inv`. -/
abbrev Keeps (inv : σ → Prop) (error : MeshError → Prop) (x : CommState σ α) : Prop :=
  Always inv x fun result s => Outcome (fun e => ¬ error e) (fun _ => inv s) result

theorem Keeps.bind {inv : σ → Prop} {x : CommState σ α} {f : α → CommState σ β}
    (hx : Keeps inv error x) (hf : ∀ a, Keeps inv error (f a)) : Keeps inv error (x >>= f) :=
  Always.bind hx hf fun _ _ hmid => hmid.of_error

theorem Keeps.spares {inv : σ → Prop} {x : CommState σ α} (hx : Keeps inv error x) :
    Always inv x fun result _ => Spares error result := by
  refine hx.mono fun result s hafter => ?_
  cases result with
  | ok a => exact trivial
  | error failure => exact hafter.of_error

theorem Keeps.returns {inv : σ → Prop} {x : CommState σ α} (hx : Keeps inv error x) :
    Always inv x fun result s => Outcome (fun _ => True) (fun _ => inv s) result := by
  refine hx.mono fun result s hafter => ?_
  match result with
  | .ok _ => exact hafter
  | .error (.reported _) => exact trivial
  | .error (.fault _) => exact trivial

theorem Rejects.of_pre {pre' : σ → Prop} {x : CommState σ α} (hx : Rejects pre error x)
    (h : ∀ s, pre' s → pre s) : Rejects pre' error x :=
  fun transport history s hs => hx transport history s (h s hs)

/-- The first step rejects, and the rest does not report such errors. -/
theorem Rejects.bind {x : CommState σ α} {f : α → CommState σ β} {mid : Except Failure α → σ → Prop}
    (hx : Rejects pre error x) (hmid : Always pre x mid)
    (hf : ∀ a, Always (mid (.ok a)) (f a) fun result _ => Spares error result) :
    Rejects pre error (x >>= f) := by
  intro transport h s hs e he hreports
  have hreject := hx transport h s hs e he
  have hmid := hmid transport h s hs
  rw [Reports, runOver_bind] at hreports
  rw [Reports] at hreject
  generalize (x.run.run s).runOver transport h = ending at hreject hmid hreports
  obtain ⟨⟨result, t⟩, after⟩ := ending
  cases result with
  | ok a =>
    have hspares := hf a transport after t hmid
    rw [hreports] at hspares
    exact absurd he hspares
  | error failure =>
    cases hreports
    exact (hreject rfl).fail f

theorem Rejects.get_bind {f : σ → CommState σ β} (hf : ∀ s, pre s → Rejects (· = s) error (f s)) :
    Rejects pre error (MonadState.get >>= f) := by
  intro transport h s hs e he hreports
  rw [Reports, runOver_bind] at hreports
  exact CommState.Ends.get.bind_silent (hf s hs transport h s rfl e he hreports)

theorem Rejects.check_bind {x : Except MeshError α} {f : α → CommState σ β}
    (hf : ∀ a, x = .ok a → Rejects pre error (f a)) : Rejects pre error (liftM x >>= f) := by
  intro transport h s hs e he hreports
  rw [Reports, runOver_bind] at hreports
  cases x with
  | ok a => exact (Ends.of_error rfl).bind_silent (hf a rfl transport h s hs e he hreports)
  | error cause =>
    cases hreports
    exact (Ends.of_reported rfl).fail f

theorem Rejects.result_bind {x : Except Failure α} {f : α → CommState σ β}
    (hf : ∀ a, x = .ok a → Rejects pre error (f a)) : Rejects pre error (liftM x >>= f) := by
  intro transport h s hs e he hreports
  rw [Reports, runOver_bind] at hreports
  cases x with
  | ok a => exact (Ends.of_failure rfl).bind_silent (hf a rfl transport h s hs e he hreports)
  | error failure =>
    cases hreports
    exact (Ends.of_result _).fail f

end CommState

end HaloMesh
