-- SUMMARY: When a rank faults over a transport that answers in any way, put together from the steps of its program.
import HaloMesh.Comm.Transport
import HaloMesh.Proofs.Comm.Yields

/-!
# Faults over a transport

A transport may answer anything, also what no rank of the library would send. A program `Faults` over
a transport if it ends with a fault there, it `Reports` an error if it ends with that, and it `Ends`
with a result if it returns one. The lemmas follow the ways in which programs are put together. For a
loop they ask which elements make its body fault, whatever happened before, and that the body returns
for all others.
-/

namespace HaloMesh

namespace Comm

variable {α β σ : Type} {transport : Transport} {h : History}

/-- The rank ends with a fault. -/
def Faults (x : Comm α) (transport : Transport) (h : History) : Prop :=
  ∃ cause, (x.run.runOver transport h).1 = .error (.fault cause)

/-- The rank returns `a`, and `after` is what happened then. -/
def Ends (x : Comm α) (transport : Transport) (h : History) (a : α) (after : History) : Prop :=
  x.run.runOver transport h = (.ok a, after)

/-- The rank reports an error. -/
def Reports (x : Comm α) (transport : Transport) (h : History) (error : MeshError) : Prop :=
  (x.run.runOver transport h).1 = .error (.reported error)

theorem Reports.not_faults {x : Comm α} {error : MeshError} (hx : x.Reports transport h error) :
    ¬ x.Faults transport h := by
  rintro ⟨cause, hcause⟩
  cases hx.symm.trans hcause

theorem Ends.not_faults {x : Comm α} {a : α} {after : History} (hx : x.Ends transport h a after) :
    ¬ x.Faults transport h := by
  rintro ⟨cause, hcause⟩
  rw [hx] at hcause
  cases hcause

/-! ## Sequences -/

theorem runOver_bind (x : Comm α) (f : α → Comm β) :
    (x >>= f).run.runOver transport h =
      match x.run.runOver transport h with
      | (.ok a, after) => (f a).run.runOver transport after
      | (.error failure, after) => (.error failure, after) := by
  have hbind : (x >>= f).run.runOver transport h =
      (ExceptT.bindCont f (x.run.runOver transport h).1).runOver transport
        (x.run.runOver transport h).2 := Program.runOver_bind transport x.run (ExceptT.bindCont f) h
  rw [hbind]
  generalize x.run.runOver transport h = ending
  obtain ⟨result, after⟩ := ending
  cases result with
  | ok a => rfl
  | error failure => rfl

theorem faults_bind_iff {x : Comm α} {f : α → Comm β} :
    (x >>= f).Faults transport h ↔
      x.Faults transport h ∨ ∃ a after, x.Ends transport h a after ∧ (f a).Faults transport after := by
  unfold Faults Ends
  rw [runOver_bind]
  generalize x.run.runOver transport h = ending
  obtain ⟨result, after⟩ := ending
  cases result with
  | ok a =>
    constructor
    · intro hfaults
      exact .inr ⟨a, after, rfl, hfaults⟩
    · rintro (⟨cause, hcause⟩ | ⟨b, later, hends, hfaults⟩)
      · cases hcause
      · cases hends
        exact hfaults
  | error failure => simp

/-- A first step that does not fault, followed by steps that do not. -/
theorem not_faults_bind {x : Comm α} {f : α → Comm β} (hx : ¬ x.Faults transport h)
    (hf : ∀ a after, ¬ (f a).Faults transport after) : ¬ (x >>= f).Faults transport h := by
  rw [faults_bind_iff, or_iff_right hx]
  rintro ⟨a, after, -, hfaults⟩
  exact hf a after hfaults

/-- A first step that reports an error. -/
theorem Reports.bind {x : Comm α} {error : MeshError} (hx : x.Reports transport h error)
    (f : α → Comm β) : (x >>= f).Reports transport h error := by
  unfold Reports at hx ⊢
  rw [runOver_bind]
  generalize x.run.runOver transport h = ending at hx
  obtain ⟨result, after⟩ := ending
  subst hx
  rfl

/-- A first step that returns. -/
theorem Ends.faults_bind_iff {x : Comm α} {f : α → Comm β} {a : α} {after : History}
    (hx : x.Ends transport h a after) :
    (x >>= f).Faults transport h ↔ (f a).Faults transport after := by
  unfold Faults
  rw [runOver_bind, hx]

theorem Ends.bind_reports {x : Comm α} {f : α → Comm β} {a : α} {error : MeshError}
    {middle : History} (hx : x.Ends transport h a middle) (hf : (f a).Reports transport middle error) :
    (x >>= f).Reports transport h error := by
  unfold Reports
  rw [runOver_bind, hx]
  exact hf

theorem Ends.bind {x : Comm α} {f : α → Comm β} {a : α} {b : β} {middle after : History}
    (hx : x.Ends transport h a middle) (hf : (f a).Ends transport middle b after) :
    (x >>= f).Ends transport h b after := by
  unfold Ends
  rw [runOver_bind, hx]
  exact hf

/-- A sequence returns only if its first step does. -/
theorem Ends.of_bind {x : Comm α} {f : α → Comm β} {b : β} {after : History}
    (hx : (x >>= f).Ends transport h b after) :
    ∃ a middle, x.Ends transport h a middle ∧ (f a).Ends transport middle b after := by
  unfold Ends at hx ⊢
  rw [runOver_bind] at hx
  generalize x.run.runOver transport h = ending at hx ⊢
  obtain ⟨result, middle⟩ := ending
  cases result with
  | ok a => exact ⟨a, middle, rfl, hx⟩
  | error failure => cases hx

/-! ## Steps that communicate nothing, and programs that cannot fail -/

theorem Ends.pure (a : α) : (Pure.pure a : Comm α).Ends transport h a h := rfl

theorem Ends.lift (p : Program α) : (liftM p : Comm α).Ends transport h (p.runOver transport h).1
    (p.runOver transport h).2 :=
  Program.runOver_bind transport p _ h

theorem Ends.issue (request : Request) :
    (liftM (Program.issue request) : Comm Unit).Ends transport h () (.posted request :: h) :=
  .lift _

theorem Ends.complete (request : Request) :
    (liftM (Program.complete request) : Comm (Option Bytes)).Ends transport h
      (Program.outcome transport h request)
      (.completed request (Program.outcome transport h request) :: h) :=
  .lift _

theorem Ends.of_fault {x : Except Fault α} {a : α} (hx : x = .ok a) :
    (liftM x : Comm α).Ends transport h a h := by
  subst hx
  rfl

theorem Ends.of_error {x : Except MeshError α} {a : α} (hx : x = .ok a) :
    (liftM x : Comm α).Ends transport h a h := by
  subst hx
  rfl

theorem Ends.eq_ok_of_result {x : Except Failure α} {a : α} {after : History}
    (hx : (liftM x : Comm α).Ends transport h a after) : x = .ok a := by
  cases x with
  | ok b =>
    cases hx
    rfl
  | error failure => cases hx

theorem Ends.eq_ok_of_fault {x : Except Fault α} {a : α} {after : History}
    (hx : (liftM x : Comm α).Ends transport h a after) : x = .ok a := by
  cases x with
  | ok b =>
    cases hx
    rfl
  | error cause => cases hx

theorem Reports.report (error : MeshError) : (report error : Comm α).Reports transport h error := rfl

theorem Reports.of_error {x : Except MeshError α} {error : MeshError} (hx : x = .error error) :
    (liftM x : Comm α).Reports transport h error := by
  subst hx
  rfl

theorem not_faults_pure (a : α) : ¬ (Pure.pure a : Comm α).Faults transport h :=
  (Ends.pure a).not_faults

theorem not_faults_report (error : MeshError) : ¬ (report error : Comm α).Faults transport h :=
  (Reports.report error).not_faults

theorem not_faults_reportAny (error : Option MeshError) : ¬ (reportAny error).Faults transport h := by
  cases error with
  | none => exact not_faults_pure ()
  | some error => exact not_faults_report error

theorem not_faults_liftM (x : Except MeshError α) : ¬ (liftM x : Comm α).Faults transport h := by
  cases x with
  | ok a => exact not_faults_pure a
  | error error => exact not_faults_report error

/-- A program that cannot fail. -/
theorem not_faults_lift (p : Program α) : ¬ (liftM p : Comm α).Faults transport h :=
  (Ends.lift p).not_faults

theorem faults_liftM_iff {x : Except Fault α} :
    (liftM x : Comm α).Faults transport h ↔ ∃ cause, x = .error cause := by
  cases x with
  | ok a =>
    constructor
    · intro hfaults
      exact absurd hfaults (not_faults_pure a)
    · rintro ⟨cause, hcause⟩
      cases hcause
  | error cause => exact ⟨fun _ => ⟨cause, rfl⟩, fun _ => ⟨cause, rfl⟩⟩

/-! ## Loops -/

section Loops

variable {Bad : α → Prop} {xs : List α}

theorem Ends.mapM {f : α → Comm β}
    (hgood : ∀ x ∈ xs, ∀ h, ∃ b after, (f x).Ends transport h b after) :
    ∃ bs after, (xs.mapM f).Ends transport h bs after := by
  induction xs generalizing h with
  | nil =>
    rw [List.mapM_nil]
    exact ⟨_, _, .pure []⟩
  | cons x xs ih =>
    rw [List.mapM_cons]
    obtain ⟨b, middle, hx⟩ := hgood x (by simp) h
    obtain ⟨bs, after, hxs⟩ := @ih middle fun y hy => hgood y (by simp [hy])
    exact ⟨_, _, hx.bind (hxs.bind (.pure _))⟩

/-- A list of steps faults if one of them does. -/
theorem faults_mapM_iff {f : α → Comm β}
    (hbad : ∀ x ∈ xs, Bad x → ∀ h, (f x).Faults transport h)
    (hgood : ∀ x ∈ xs, ¬ Bad x → ∀ h, ∃ b after, (f x).Ends transport h b after) :
    (xs.mapM f).Faults transport h ↔ ∃ x ∈ xs, Bad x := by
  induction xs generalizing h with
  | nil =>
    rw [List.mapM_nil]
    simpa using not_faults_pure []
  | cons x xs ih =>
    have ih := fun h => @ih h (fun y hy => hbad y (by simp [hy])) fun y hy => hgood y (by simp [hy])
    rw [List.mapM_cons]
    simp only [List.mem_cons, exists_eq_or_imp]
    by_cases hx : Bad x
    · exact iff_of_true (Comm.faults_bind_iff.mpr (.inl (hbad x (by simp) hx h))) (.inl hx)
    · obtain ⟨b, middle, hends⟩ := hgood x (by simp) hx h
      rw [hends.faults_bind_iff, Comm.faults_bind_iff, ih, or_iff_left, or_iff_right hx]
      rintro ⟨bs, after, -, hfaults⟩
      exact not_faults_pure _ hfaults

theorem Ends.foldlM {f : σ → α → Comm σ} {s : σ}
    (hgood : ∀ x ∈ xs, ∀ s h, ∃ s' after, (f s x).Ends transport h s' after) :
    ∃ s' after, (xs.foldlM f s).Ends transport h s' after := by
  induction xs generalizing s h with
  | nil =>
    rw [List.foldlM_nil]
    exact ⟨_, _, .pure s⟩
  | cons x xs ih =>
    rw [List.foldlM_cons]
    obtain ⟨s', middle, hx⟩ := hgood x (by simp) s h
    obtain ⟨s'', after, hxs⟩ := @ih middle s' fun y hy => hgood y (by simp [hy])
    exact ⟨_, _, hx.bind hxs⟩

/-- A loop faults if its body does for one of the elements. -/
theorem faults_foldlM_iff {f : σ → α → Comm σ} {s : σ}
    (hbad : ∀ x ∈ xs, Bad x → ∀ s h, (f s x).Faults transport h)
    (hgood : ∀ x ∈ xs, ¬ Bad x → ∀ s h, ∃ s' after, (f s x).Ends transport h s' after) :
    (xs.foldlM f s).Faults transport h ↔ ∃ x ∈ xs, Bad x := by
  induction xs generalizing s h with
  | nil =>
    rw [List.foldlM_nil]
    simpa using not_faults_pure s
  | cons x xs ih =>
    have ih := fun s h =>
      @ih h s (fun y hy => hbad y (by simp [hy])) fun y hy => hgood y (by simp [hy])
    rw [List.foldlM_cons]
    simp only [List.mem_cons, exists_eq_or_imp]
    by_cases hx : Bad x
    · exact iff_of_true (Comm.faults_bind_iff.mpr (.inl (hbad x (by simp) hx s h))) (.inl hx)
    · obtain ⟨s', middle, hends⟩ := hgood x (by simp) hx s h
      rw [hends.faults_bind_iff, ih, or_iff_right hx]

end Loops

end Comm

end HaloMesh
