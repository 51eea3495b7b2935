-- SUMMARY: What a rank sends and receives on the way to a result, put together from the steps of its program.
import HaloMesh.Proofs.Comm.Stateful

/-!
# Results of a rank

A program that can fail `Yields` a result if it sends and receives the listed messages and then
returns it. It does so with any state that it leaves as it is, so the rules are those of programs with a
state. A program that has returned was put together from parts that have.
-/

namespace HaloMesh

/-! ## Programs that can fail -/

namespace Comm

variable {α β σ : Type} {rank : Nat}

/-- The rank performs actions with the listed effects and returns a result. -/
def Yields (rank : Nat) (x : Comm α) (es : List Effect) (a : α) : Prop :=
  Program.Performs rank x.run es (.done (.ok a))

theorem yields_liftM_iff {x : Comm α} {es : List Effect} {a : α} {s : σ} :
    CommState.Yields rank (liftM x : CommState σ α) s es a s ↔ Yields rank x es a := by
  constructor
  · intro h
    obtain ⟨result, es₁, es₂, rfl, hfirst, hlast⟩ := Program.Performs.of_bind h
    obtain ⟨rfl, hdone⟩ := hlast.eq_of_done
    cases hdone
    rw [List.append_nil]
    exact hfirst
  · exact fun h => Program.Performs.bind h _

theorem Yields.pure (rank : Nat) (a : α) : Yields rank (Pure.pure a) [] a :=
  yields_liftM_iff.mp (CommState.Yields.pure rank a ())

/-- A first step, and what the rest performs, whether it ends in a result or in a failure. -/
theorem Yields.andThen {x : Comm α} {f : α → Comm β} {es es' : List Effect} {a : α}
    {q : Program (Except Failure β)} (h : Yields rank x es a)
    (h' : Program.Performs rank (f a).run es' q) :
    Program.Performs rank (x >>= f).run (es ++ es') q :=
  (Program.Performs.bind h _).trans h'

/-- A first step that does all that is to be done, whether the rest ends in a result or in a failure. -/
theorem Yields.andThen_silent {x : Comm α} {f : α → Comm β} {es : List Effect} {a : α}
    {q : Program (Except Failure β)} (h : Yields rank x es a)
    (h' : Program.Performs rank (f a).run [] q) : Program.Performs rank (x >>= f).run es q := by
  rw [← List.append_nil es]
  exact h.andThen h'

section
variable {x : Comm α} {f : α → Comm β} {es es' : List Effect} {a : α} {b : β}

theorem Yields.bind (h : Yields rank x es a) (h' : Yields rank (f a) es' b) :
    Yields rank (x >>= f) (es ++ es') b := by
  rw [← yields_liftM_iff (s := ())] at h h' ⊢
  rw [CommState.liftM_bind]
  exact h.bind h'

/-- A first step without effects. -/
theorem Yields.bind_silent (h : Yields rank x [] a) (h' : Yields rank (f a) es b) :
    Yields rank (x >>= f) es b :=
  h.bind h'

/-- A last step without effects. -/
theorem Yields.then_silent (h : Yields rank x es a) (h' : Yields rank (f a) [] b) :
    Yields rank (x >>= f) es b :=
  h.andThen_silent h'

end

/-- A program that cannot fail. -/
theorem Yields.lift {p : Program α} {es : List Effect} {a : α}
    (h : p.Performs rank es (.done a)) : Yields rank (liftM p : Comm α) es a :=
  yields_liftM_iff.mp (CommState.Yields.lift h ())

theorem Yields.of_failure {x : Except Failure α} {a : α} (h : x = .ok a) :
    Yields rank (liftM x : Comm α) [] a :=
  h ▸ .pure rank a

theorem Yields.of_fault {x : Except Fault α} {a : α} (h : x = .ok a) :
    Yields rank (liftM x : Comm α) [] a :=
  h ▸ .pure rank a

theorem Yields.of_error {x : Except MeshError α} {a : α} (h : x = .ok a) :
    Yields rank (liftM x : Comm α) [] a :=
  h ▸ .pure rank a

/-- A computation that can fail has no effects. -/
theorem performs_liftM (rank : Nat) (x : Except MeshError α) :
    Program.Performs rank (liftM x : Comm α).run [] (.done (liftM x)) := by
  cases x with
  | ok a => exact .refl _
  | error error => exact .refl _

theorem Yields.mapM {f : α → Comm β} {e : α → List Effect} {g : α → β} {xs : List α}
    (h : ∀ x ∈ xs, Yields rank (f x) (e x) (g x)) :
    Yields rank (xs.mapM f) (xs.flatMap e) (xs.map g) := by
  simp only [← yields_liftM_iff (s := ()), CommState.liftM_mapM] at h ⊢
  exact .mapM h

/-- A loop that keeps an invariant. -/
theorem Yields.foldlM {f : σ → α → Comm σ} {e : α → List Effect} {g : σ → α → σ} (P : σ → Prop)
    {xs : List α} {s : σ} (hs : P s)
    (h : ∀ x ∈ xs, ∀ s, P s → Yields rank (f s x) (e x) (g s x) ∧ P (g s x)) :
    Yields rank (xs.foldlM f s) (xs.flatMap e) (xs.foldl g s) := by
  simp only [← yields_liftM_iff (s := ()), CommState.liftM_foldlM] at h ⊢
  exact .foldlM P hs h

/-! ## Programs that have returned -/

/-- A sequence that returned consists of two parts that did. -/
theorem Yields.of_bind {x : Comm α} {f : α → Comm β} {es : List Effect} {b : β}
    (h : Yields rank (x >>= f) es b) :
    ∃ a es₁ es₂, es = es₁ ++ es₂ ∧ Yields rank x es₁ a ∧ Yields rank (f a) es₂ b := by
  obtain ⟨result, es₁, es₂, heq, hfirst, hrest⟩ := Program.Performs.of_bind h
  cases result with
  | ok a => exact ⟨a, es₁, es₂, heq, hfirst, hrest⟩
  | error failure => cases hrest.eq_of_done.2

theorem Yields.eq_of_pure {es : List Effect} {a b : α} (h : Yields rank (Pure.pure a) es b) : a = b := by
  cases h.eq_of_done.2
  rfl

theorem Yields.not_throw {failure : Failure} {es : List Effect} {a : α} :
    ¬ Yields rank (throw failure) es a := by
  intro h
  cases h.eq_of_done.2

theorem Yields.of_lift {p : Program α} {es : List Effect} {a : α}
    (h : Yields rank (liftM p : Comm α) es a) : ∃ es', p.Performs rank es' (.done a) := by
  obtain ⟨b, es₁, _, -, hfirst, hrest⟩ := Program.Performs.of_bind h
  cases hrest.eq_of_done.2
  exact ⟨es₁, hfirst⟩

theorem Yields.eq_ok_of_result {x : Except Failure α} {es : List Effect} {a : α}
    (h : Yields rank (liftM x : Comm α) es a) : x = .ok a := by
  cases x with
  | ok b =>
    cases (Program.Performs.eq_of_done h).2
    rfl
  | error failure => cases (Program.Performs.eq_of_done h).2

/-- Every element of a list was handled. -/
theorem Yields.of_mapM {f : α → Comm β} {xs : List α} {es : List Effect} {ys : List β}
    (h : Yields rank (xs.mapM f) es ys) : ∀ x ∈ xs, ∃ es' y, Yields rank (f x) es' y := by
  induction xs generalizing es ys with
  | nil => exact nofun
  | cons x xs ih =>
    rw [List.mapM_cons] at h
    obtain ⟨y, es₁, _, -, hfirst, h⟩ := h.of_bind
    obtain ⟨_, _, _, -, hrest, -⟩ := h.of_bind
    intro x' hx'
    rcases List.mem_cons.mp hx' with rfl | hx'
    · exact ⟨es₁, y, hfirst⟩
    · exact ih hrest x' hx'

end Comm

/-- A program without a state yields its result with any state. -/
theorem CommState.Yields.of_comm {σ α : Type} {rank : Nat} {x : Comm α} {es : List Effect} {a : α}
    (h : Comm.Yields rank x es a) (s : σ) : Yields rank (liftM x : CommState σ α) s es a s :=
  Comm.yields_liftM_iff.mpr h

/-! ## Single actions -/

namespace Program

variable {rank : Nat}

theorem performs_send (rank : Nat) (p : Parcel) :
    (issue (.send p.peer p.tag p.bytes)).Performs rank [p.sent rank] (.done ()) :=
  .effect (.send ..) (.refl _)

theorem performs_expect (rank peer tag length : Nat) :
    (issue (.receive peer tag length)).Performs rank [] (.done ()) :=
  .silent (.expect ..) (.refl _)

theorem performs_receive (rank : Nat) (p : Parcel) (length : Nat) :
    (complete (.receive p.peer p.tag length)).Performs rank [p.received rank]
      (.done (some (p.bytes.take length))) :=
  .effect (.receive ..) (.refl _)

theorem performs_record (rank : Nat) (level : LogLevel) (text : String) :
    (record level text).Performs rank [] (.done ()) :=
  .silent (.log ..) (.refl _)

variable {γ : Type} (xs : List γ) (peer tag length : γ → Nat) (message : γ → Bytes)

theorem performs_issueAll_send (rank : Nat) :
    (issueAll (xs.map fun x => .send (peer x) (tag x) (message x))).Performs rank
      (xs.map fun x => .push ⟨rank, peer x, tag x⟩ (message x)) (.done ()) := by
  induction xs with
  | nil => exact .refl _
  | cons x xs ih => exact .effect (.send ..) ih

theorem performs_issueAll_receive (rank : Nat) :
    (issueAll (xs.map fun x => .receive (peer x) (tag x) (length x))).Performs rank []
      (.done ()) := by
  induction xs with
  | nil => exact .refl _
  | cons x xs ih => exact .silent (.expect ..) ih

/-- Waiting for sends yields nothing, and has no effect. -/
theorem performs_completeAll_send (rank : Nat) :
    (completeAll (xs.map fun x => .send (peer x) (tag x) (message x))).Performs rank []
      (.done (xs.map fun _ => none)) := by
  induction xs with
  | nil => exact .refl _
  | cons x xs ih =>
    exact .silent (.sent (peer x) (tag x) (message x) fun reply =>
      (completeAll _).bind fun replies => .done (reply :: replies)) (ih.bind _)

/-- Waiting for receives yields the messages, cut to the length that each receive allows. -/
theorem performs_completeAll_receive (rank : Nat) :
    (completeAll (xs.map fun x => .receive (peer x) (tag x) (length x))).Performs rank
      (xs.map fun x => .pop ⟨peer x, rank, tag x⟩ (message x))
      (.done (xs.map fun x => some ((message x).take (length x)))) := by
  induction xs with
  | nil => exact .refl _
  | cons x xs ih =>
    exact .effect (.receive (peer x) (tag x) (length x) (fun reply =>
      (completeAll _).bind fun replies => .done (reply :: replies)) (message x)) (ih.bind _)

end Program

/-! ## Groups of programs that can fail -/

/-- If all ranks of a group have returned in one interleaving, each of them has come to its result. -/
theorem Comm.yields_of_steps {α : Type} {n k : Nat} {x : Nat → Comm α} {a : Nat → α} {q q' : Queues}
    (h : Network.Steps k ⟨(List.range n).map fun r => (x r).run, q⟩
      ⟨((List.range n).map fun r => Except.ok (a r)).map .done, q'⟩) {r : Nat} (hr : r < n) :
    ∃ es, Yields r (x r) es (a r) := by
  have hget : ((List.range n).map fun r => (x r).run)[r]? = some (x r).run := by
    rw [List.getElem?_map, List.getElem?_range hr]
    rfl
  obtain ⟨es, last, hlast, hperforms⟩ := h.performs hget
  rw [List.map_map, List.getElem?_map, List.getElem?_range hr] at hlast
  cases hlast
  exact ⟨es, hperforms⟩

/-- All ranks of a group come to results without a failure. -/
def Comm.Completes {α : Type} (n : Nat) (x : Nat → Comm α) (a : Nat → α) : Prop :=
  HaloMesh.Completes n (fun r => (x r).run) fun r => .ok (a r)

/-- Programs without a state complete with any states, which they leave as they are. -/
theorem CommState.completes_liftM_iff {σ α : Type} {n : Nat} {x : Nat → Comm α}
    {a : Nat → Except Failure α} {s : Nat → σ} :
    CommState.Completes n (fun r => liftM (x r)) s a s ↔ HaloMesh.Completes n (fun r => (x r).run) a := by
  constructor
  · intro h β K
    obtain ⟨k, hk⟩ := h β fun r ending => K r ending.1
    simp only [CommState.run_liftM, Program.bind_assoc] at hk
    exact ⟨k, hk⟩
  · exact fun h => HaloMesh.Completes.bind h (.done n fun r => (a r, s r))

namespace Comm.Completes

variable {α β : Type} {n : Nat} {x : Nat → Comm α} {a : Nat → α}

/-- All ranks go on from their results, to others or to failures. -/
theorem andThen (h : Comm.Completes n x a) {f : Nat → α → Comm β} {b : Nat → Except Failure β}
    (h' : HaloMesh.Completes n (fun r => (f r (a r)).run) b) :
    HaloMesh.Completes n (fun r => (x r >>= f r).run) b := by
  have h := CommState.completes_liftM_iff (s := fun _ => ()).mpr h
  rw [← CommState.completes_liftM_iff (s := fun _ => ())] at h' ⊢
  simp only [CommState.liftM_bind]
  exact h.bind h'

theorem bind (h : Comm.Completes n x a) {f : Nat → α → Comm β} {b : Nat → β}
    (h' : Comm.Completes n (fun r => f r (a r)) b) : Comm.Completes n (fun r => x r >>= f r) b :=
  h.andThen h'

theorem of_round {out inc : Nat → List Parcel} (hmatches : Matches n out inc)
    (h : ∀ r < n, Comm.Yields r (x r)
      ((out r).map (Parcel.sent r) ++ (inc r).map (Parcel.received r)) (a r)) :
    Comm.Completes n x a :=
  HaloMesh.Completes.of_round hmatches h

/-- Steps of the ranks without effects. -/
theorem of_silent (h : ∀ r < n, Comm.Yields r (x r) [] (a r)) : Comm.Completes n x a :=
  HaloMesh.Completes.of_silent h

/-- All ranks run programs that cannot fail. -/
theorem lift {P : Nat → Program α} (h : HaloMesh.Completes n P a) :
    Comm.Completes n (fun r => liftM (P r)) a :=
  CommState.completes_liftM_iff.mp (CommState.Completes.lift h fun _ => ())

/-- Several programs of the group, one after the other. -/
theorem mapM {γ : Type} {f : γ → Nat → Comm α} {b : γ → Nat → α} {xs : List γ}
    (h : ∀ y ∈ xs, Comm.Completes n (f y) (b y)) :
    Comm.Completes n (fun r => xs.mapM fun y => f y r) fun r => xs.map fun y => b y r := by
  induction xs with
  | nil => exact .of_silent fun r _ => .pure r []
  | cons y xs ih =>
    simp only [List.mapM_cons, List.map_cons]
    have hrest := ih fun z hz => h z (by simp [hz])
    exact (h y (by simp)).bind (hrest.bind (.of_silent fun r _ => .pure r _))

end Comm.Completes

end HaloMesh
