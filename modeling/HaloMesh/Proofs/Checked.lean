-- SUMMARY: Reasoning about computations that can fail: when they succeed, and what a success says.
import HaloMesh.Loop
import HaloMesh.Word
import Mathlib.Algebra.Order.Ring.Nat
import Mathlib.Data.List.Forall2

/-!
# Checked computations

The library computes in `Except`, so that every sum, index and slice can fault. The lemmas here
turn such a computation into the plain value once its ranges are known, and take a computation that
succeeded apart into its steps.
-/

namespace HaloMesh

/-! ## Sequences of steps -/

namespace Checked

variable {ε α β : Type}

@[simp] theorem ok_bind (a : α) (f : α → Except ε β) : (Except.ok a >>= f) = f a := rfl

@[simp] theorem error_bind (e : ε) (f : α → Except ε β) :
    (Except.error e >>= f) = .error e := rfl

@[simp] theorem pure_eq_ok (a : α) : (pure a : Except ε α) = .ok a := rfl

/-- A success that could have faulted is a success of a failing computation. -/
@[simp] theorem liftM_ok (a : α) :
    (liftM (Except.ok a : Except Fault α) : Except Failure α) = .ok a := rfl

@[simp] theorem liftM_reported_ok (a : α) :
    (liftM (Except.ok a : Except MeshError α) : Except Failure α) = .ok a := rfl

theorem bind_eq_ok_iff {x : Except ε α} {f : α → Except ε β} {b : β} :
    (x >>= f) = .ok b ↔ ∃ a, x = .ok a ∧ f a = .ok b := by
  cases x with
  | ok a => simp
  | error e => simp

theorem liftM_eq_ok_iff {x : Except Fault α} {a : α} :
    (liftM x : Except Failure α) = .ok a ↔ x = .ok a := by
  cases x with
  | ok b => simp
  | error e => exact ⟨nofun, nofun⟩

theorem liftM_reported_eq_ok_iff {x : Except MeshError α} {a : α} :
    (liftM x : Except Failure α) = .ok a ↔ x = .ok a := by
  cases x with
  | ok b => simp
  | error e => exact ⟨nofun, nofun⟩

theorem mapError_eq_ok_iff {δ : Type} {x : Except ε α} {f : ε → δ} {a : α} :
    x.mapError f = .ok a ↔ x = .ok a := by
  cases x <;> simp [Except.mapError]

theorem mapError_eq_error_iff {δ : Type} {x : Except ε α} {f : ε → δ} {d : δ} :
    x.mapError f = .error d ↔ ∃ e, x = .error e ∧ f e = d := by
  cases x with
  | ok a => exact ⟨nofun, nofun⟩
  | error e =>
    constructor
    · rintro ⟨⟩
      exact ⟨e, rfl, rfl⟩
    · rintro ⟨_, ⟨⟩, rfl⟩
      rfl

/-! ## Lists -/

/-- A list of computations that succeed gives the list of their values. -/
theorem mapM_eq_ok {f : α → Except ε β} {g : α → β} {xs : List α}
    (h : ∀ x ∈ xs, f x = .ok (g x)) : xs.mapM f = .ok (xs.map g) := by
  induction xs with
  | nil => rfl
  | cons x xs ih =>
    rw [List.mapM_cons, h x (by simp), ih fun y hy => h y (by simp [hy])]
    rfl

/-- A list of computations succeeds with one value for each. -/
theorem mapM_eq_ok_iff {f : α → Except ε β} {xs : List α} {ys : List β} :
    xs.mapM f = .ok ys ↔ List.Forall₂ (fun x y => f x = .ok y) xs ys := by
  induction xs generalizing ys with
  | nil =>
    rw [List.mapM_nil, pure_eq_ok, Except.ok.injEq, List.forall₂_nil_left_iff]
    exact eq_comm
  | cons x xs ih =>
    rw [List.mapM_cons, bind_eq_ok_iff, List.forall₂_cons_left_iff]
    refine exists_congr fun y => ?_
    simp only [bind_eq_ok_iff, ih, pure_eq_ok, Except.ok.injEq]
    constructor
    · rintro ⟨hy, rest, hrest, rfl⟩
      exact ⟨rest, hy, hrest, rfl⟩
    · rintro ⟨rest, hy, hrest, rfl⟩
      exact ⟨hy, rest, hrest, rfl⟩

/-- Two lists that are related element by element, read at one index. -/
theorem getElem?_of_forall₂ {R : α → β → Prop} {xs : List α} {ys : List β}
    (h : List.Forall₂ R xs ys) {i : Nat} {x : α} (hx : xs[i]? = some x) :
    ∃ y, ys[i]? = some y ∧ R x y := by
  induction h generalizing i with
  | nil => cases hx
  | cons hr _ ih =>
    cases i with
    | zero =>
      cases hx
      exact ⟨_, rfl, hr⟩
    | succ i => exact ih hx

/-- A list whose elements are determined by those of another. -/
theorem eq_map_of_forall₂ {R : α → β → Prop} {f : α → β} {xs : List α} {ys : List β}
    (h : List.Forall₂ R xs ys) (hf : ∀ x ∈ xs, ∀ y, R x y → y = f x) : ys = xs.map f := by
  induction h with
  | nil => rfl
  | cons hr _ ih =>
    rw [List.map_cons, hf _ (by simp) _ hr, ih fun x hx => hf x (by simp [hx])]

/-- Values listed under their keys, looked up by key. -/
theorem lookup_map (f : Nat → β) (keys : List Nat) (key : Nat) :
    (keys.map fun k => (k, f k)).lookup key = if key ∈ keys then some (f key) else none := by
  induction keys with
  | nil => rfl
  | cons k keys ih =>
    rw [List.map_cons, List.lookup_cons, ih]
    by_cases h : key = k
    · subst h
      simp
    · have hne : (key == k) = false := beq_eq_false_iff_ne.mpr h
      simp [hne, h]

theorem forM_eq_ok {f : α → Except ε Unit} {xs : List α} (h : ∀ x ∈ xs, f x = .ok ()) :
    xs.forM f = .ok () := by
  induction xs with
  | nil => rfl
  | cons x xs ih =>
    rw [List.forM_eq_forM, List.forM_cons, h x (by simp)]
    exact ih fun y hy => h y (by simp [hy])

theorem forM_eq_ok_iff {f : α → Except ε Unit} {xs : List α} :
    xs.forM f = .ok () ↔ ∀ x ∈ xs, f x = .ok () := by
  refine ⟨fun h => ?_, forM_eq_ok⟩
  induction xs with
  | nil => simp
  | cons x xs ih =>
    rw [List.forM_eq_forM, List.forM_cons, bind_eq_ok_iff] at h
    obtain ⟨_, hx, h⟩ := h
    intro y hy
    cases hy with
    | head => exact hx
    | tail _ hy => exact ih h y hy

/-! ## Errors -/

/-- A computation that fails with errors of one kind only. -/
def FailsWith (P : ε → Prop) (x : Except ε α) : Prop := ∀ e, x = .error e → P e

theorem FailsWith.ok (P : ε → Prop) (a : α) : FailsWith P (.ok a) := nofun

theorem FailsWith.error {P : ε → Prop} {e : ε} (h : P e) : FailsWith P (.error e : Except ε α) := by
  rintro _ ⟨⟩
  exact h

/-- The second step matters only on values that the first one can have. -/
theorem FailsWith.andThen {P : ε → Prop} {x : Except ε α} {f : α → Except ε β} (h : FailsWith P x)
    (h' : ∀ a, x = .ok a → FailsWith P (f a)) : FailsWith P (x >>= f) := by
  cases x with
  | ok a => exact h' a rfl
  | error e => exact .error (h e rfl)

theorem FailsWith.bind {P : ε → Prop} {x : Except ε α} {f : α → Except ε β} (h : FailsWith P x)
    (h' : ∀ a, FailsWith P (f a)) : FailsWith P (x >>= f) :=
  h.andThen fun a _ => h' a

theorem FailsWith.mono {P Q : ε → Prop} {x : Except ε α} (h : FailsWith P x)
    (hPQ : ∀ e, P e → Q e) : FailsWith Q x := fun e he => hPQ e (h e he)

/-- A fault of a computation that can only fault is one of the failing computation. -/
theorem FailsWith.lift {P : Failure → Prop} {x : Except Fault α}
    (h : FailsWith (fun cause => P (.fault cause)) x) : FailsWith P (liftM x : Except Failure α) := by
  cases x with
  | ok a => exact .ok P a
  | error cause => exact .error (h cause rfl)

theorem FailsWith.lift_reported {P : Failure → Prop} {x : Except MeshError α}
    (h : FailsWith (fun error => P (.reported error)) x) :
    FailsWith P (liftM x : Except Failure α) := by
  cases x with
  | ok a => exact .ok P a
  | error error => exact .error (h error rfl)

theorem FailsWith.mapM {P : ε → Prop} {f : α → Except ε β} {xs : List α}
    (h : ∀ x ∈ xs, FailsWith P (f x)) : FailsWith P (xs.mapM f) := by
  induction xs with
  | nil => exact .ok P []
  | cons x xs ih =>
    rw [List.mapM_cons]
    exact (h x (by simp)).bind fun _ => (ih fun y hy => h y (by simp [hy])).bind fun _ => .ok P _

theorem FailsWith.forM {P : ε → Prop} {f : α → Except ε Unit} {xs : List α}
    (h : ∀ x ∈ xs, FailsWith P (f x)) : FailsWith P (xs.forM f) := by
  induction xs with
  | nil => exact .ok P ()
  | cons x xs ih =>
    rw [List.forM_eq_forM, List.forM_cons]
    exact (h x (by simp)).bind fun _ => ih fun y hy => h y (by simp [hy])

theorem FailsWith.foldlM {P : ε → Prop} {σ : Type} {f : σ → α → Except ε σ} {xs : List α}
    (h : ∀ x ∈ xs, ∀ s, FailsWith P (f s x)) (s : σ) : FailsWith P (xs.foldlM f s) := by
  induction xs generalizing s with
  | nil => exact .ok P s
  | cons x xs ih =>
    rw [List.foldlM_cons]
    exact (h x (by simp) s).bind fun s => ih (fun y hy => h y (by simp [hy])) s

/-! ## Loops -/

/-- A fold whose steps succeed where an invariant holds, and keep it, is a plain fold. -/
theorem foldlM_eq_ok {σ : Type} {f : σ → α → Except ε σ} {g : σ → α → σ} (P : σ → Prop)
    {xs : List α} {s : σ} (hs : P s)
    (h : ∀ x ∈ xs, ∀ s, P s → f s x = .ok (g s x) ∧ P (g s x)) :
    xs.foldlM f s = .ok (xs.foldl g s) ∧ P (xs.foldl g s) := by
  induction xs generalizing s with
  | nil => exact ⟨rfl, hs⟩
  | cons x xs ih =>
    obtain ⟨hstep, hkeep⟩ := h x (by simp) s hs
    rw [List.foldlM_cons, hstep, ok_bind, List.foldl_cons]
    exact ih hkeep fun y hy => h y (by simp [hy])

/-- Two loops whose bodies agree on the elements of the list agree. -/
theorem foldlM_congr {σ : Type} {f g : σ → α → Except ε σ} {xs : List α}
    (h : ∀ x ∈ xs, ∀ s, f s x = g s x) (s : σ) : xs.foldlM f s = xs.foldlM g s := by
  induction xs generalizing s with
  | nil => rfl
  | cons x xs ih =>
    rw [List.foldlM_cons, List.foldlM_cons, h x (by simp)]
    exact congrArg (g s x >>= ·) (funext fun s => ih (fun y hy => h y (by simp [hy])) s)

/-- A loop over several lists, one after the other, is a loop of loops. -/
theorem foldlM_flatMap {σ : Type} (f : α → List β) (g : σ → β → Except ε σ) (xs : List α)
    (s : σ) : (xs.flatMap f).foldlM g s = xs.foldlM (fun s x => (f x).foldlM g s) s := by
  induction xs generalizing s with
  | nil => rfl
  | cons x xs ih => simp only [List.flatMap_cons, List.foldlM_append, List.foldlM_cons, ih]

/-- A counted loop passes through the values that its body leads from one to the next. -/
theorem countUpTo_eq_ok {σ : Type} {body : Nat → σ → Except ε σ} {value : Nat → σ} {n : Nat}
    (h : ∀ i < n, body i (value i) = .ok (value (i + 1))) :
    countUpTo n body (value 0) = .ok (value n) := by
  rw [countUpTo_eq_foldlM]
  induction n with
  | zero => rfl
  | succ n ih =>
    rw [List.range_succ, List.foldlM_append, ih fun i hi => h i (Nat.lt_succ_of_lt hi), ok_bind,
      List.foldlM_cons, h n (Nat.lt_succ_self n)]
    rfl

/-! ## Values of successes -/

/-- The computation may fail, and has this value if it does not. -/
def Gives (x : Except ε α) (a : α) : Prop := ∀ b, x = .ok b → b = a

theorem Gives.ok (a : α) : Gives (.ok a : Except ε α) a := by
  rintro _ ⟨⟩
  rfl

theorem Gives.of_eq {x : Except ε α} {a : α} (h : x = .ok a) : Gives x a := h ▸ .ok a

theorem Gives.error (e : ε) (a : α) : Gives (.error e) a := nofun

theorem Gives.bind {x : Except ε α} {f : α → Except ε β} {a : α} {b : β} (h : Gives x a)
    (h' : Gives (f a) b) : Gives (x >>= f) b := by
  intro c hc
  obtain ⟨a', ha, hf⟩ := bind_eq_ok_iff.mp hc
  rw [h a' ha] at hf
  exact h' c hf

theorem Gives.mapM {f : α → Except ε β} {g : α → β} {xs : List α}
    (h : ∀ x ∈ xs, Gives (f x) (g x)) : Gives (xs.mapM f) (xs.map g) := by
  induction xs with
  | nil => exact .ok []
  | cons x xs ih =>
    rw [List.mapM_cons]
    exact (h x (by simp)).bind ((ih fun y hy => h y (by simp [hy])).bind (.ok _))

theorem Gives.foldlM {σ : Type} {f : σ → α → Except ε σ} {g : σ → α → σ} {xs : List α}
    (h : ∀ x ∈ xs, ∀ s, Gives (f s x) (g s x)) (s : σ) : Gives (xs.foldlM f s) (xs.foldl g s) := by
  induction xs generalizing s with
  | nil => exact .ok s
  | cons x xs ih =>
    rw [List.foldlM_cons]
    exact (h x (by simp) s).bind (ih (fun y hy => h y (by simp [hy])) _)

end Checked

/-! ## Sums and products of sizes -/

namespace Word

theorem lt_limit {n : Nat} (h : n < 2 ^ 63) : n < limit :=
  Nat.lt_trans h (by decide)

theorem lt_limit_of_le {n : Nat} (h : n ≤ bufferLimit) : n < limit :=
  Nat.lt_of_le_of_lt h (by decide)

theorem gives_add (a b : Nat) : Checked.Gives (add a b) (a + b) := fun _ h => (add_eq_ok_iff.mp h).2

theorem gives_sub (a b : Nat) : Checked.Gives (sub a b) (a - b) := fun _ h => (sub_eq_ok_iff.mp h).2

theorem gives_mul (a b : Nat) : Checked.Gives (mul a b) (a * b) := fun _ h => (mul_eq_ok_iff.mp h).2

theorem gives_mod (a b : Nat) : Checked.Gives (mod a b) (a % b) := fun _ h => (mod_eq_ok_iff.mp h).2

theorem add_failsWith (a b : Nat) :
    Checked.FailsWith (fun cause => cause = .overflow .add ∧ limit ≤ a + b) (add a b) := by
  unfold add
  split
  · exact .ok _ _
  · exact .error ⟨rfl, Nat.le_of_not_lt ‹_›⟩

theorem mul_failsWith (a b : Nat) :
    Checked.FailsWith (fun cause => cause = .overflow .multiply ∧ limit ≤ a * b) (mul a b) := by
  unfold mul
  split
  · exact .ok _ _
  · exact .error ⟨rfl, Nat.le_of_not_lt ‹_›⟩

theorem mul_of_le {a b : Nat} (h : a * b ≤ bufferLimit) : mul a b = .ok (a * b) :=
  mul_of_lt (lt_limit_of_le h)

theorem add_lt_limit {a b : Nat} (ha : a < 2 ^ 63) (hb : b < 2 ^ 63) : a + b < limit := by
  have hlimit : limit = 2 ^ 63 + 2 ^ 63 := rfl
  omega

/-- The sum of sizes does not fault if it is a size. -/
theorem sum_eq_ok_iff {xs : List Nat} {n : Nat} : sum xs = .ok n ↔ xs.sum < limit ∧ n = xs.sum := by
  have fold : ∀ (xs : List Nat) (a : Nat), a < limit →
      (xs.foldlM add a = .ok n ↔ a + xs.sum < limit ∧ n = a + xs.sum) := by
    intro xs
    induction xs with
    | nil =>
      intro a ha
      simp [ha, eq_comm]
    | cons x xs ih =>
      intro a ha
      rw [List.foldlM_cons, Checked.bind_eq_ok_iff, List.sum_cons, ← Nat.add_assoc]
      constructor
      · rintro ⟨_, hadd, hrest⟩
        obtain ⟨hlt, rfl⟩ := add_eq_ok_iff.mp hadd
        exact (ih _ hlt).mp hrest
      · intro hrest
        have hlt : a + x < limit := Nat.lt_of_le_of_lt (Nat.le_add_right _ _) hrest.1
        exact ⟨_, add_of_lt hlt, (ih _ hlt).mpr hrest⟩
  simpa [sum] using fold xs 0 (by decide)

theorem lt_limit_of_sum {xs : List Nat} {n : Nat} (h : sum xs = .ok n) : n < limit := by
  obtain ⟨hlt, heq⟩ := sum_eq_ok_iff.mp h
  rwa [heq]

theorem sum_eq_ok {xs : List Nat} (h : xs.sum < limit) : sum xs = .ok xs.sum :=
  sum_eq_ok_iff.mpr ⟨h, rfl⟩

/-- A product of sizes that does not fault is the product, which is a size. -/
theorem eq_prod_of_product {xs : List Nat} {n : Nat} (h : product xs = .ok n) :
    n = xs.prod ∧ n < limit := by
  have fold : ∀ (xs : List Nat) (a : Nat), a < limit → xs.foldlM mul a = .ok n →
      n = a * xs.prod ∧ n < limit := by
    intro xs
    induction xs with
    | nil =>
      rintro a ha ⟨⟩
      exact ⟨by simp, ha⟩
    | cons x xs ih =>
      intro a ha hfold
      rw [List.foldlM_cons, Checked.bind_eq_ok_iff] at hfold
      obtain ⟨_, hmul, hrest⟩ := hfold
      obtain ⟨hlt, rfl⟩ := mul_eq_ok_iff.mp hmul
      rw [List.prod_cons, ← Nat.mul_assoc]
      exact ih _ hlt hrest
  simpa using fold xs 1 (by decide) h

/-- The product of positive sizes does not fault if it is a size, since no partial product is
larger. -/
theorem product_eq_ok {xs : List Nat} (hpos : ∀ x ∈ xs, 0 < x) (h : xs.prod < limit) :
    product xs = .ok xs.prod := by
  have fold : ∀ (xs : List Nat) (a : Nat), (∀ x ∈ xs, 0 < x) → a * xs.prod < limit →
      xs.foldlM mul a = .ok (a * xs.prod) := by
    intro xs
    induction xs with
    | nil => intro a _ _; simp
    | cons x xs ih =>
      intro a hpos ha
      rw [List.prod_cons, ← Nat.mul_assoc] at ha ⊢
      have hprod : 0 < xs.prod :=
        List.prod_pos_iff_forall_pos_nat.mpr fun y hy => hpos y (by simp [hy])
      have hax : a * x < limit := Nat.lt_of_le_of_lt (Nat.le_mul_of_pos_right _ hprod) ha
      rw [List.foldlM_cons, mul_of_lt hax, Checked.ok_bind]
      exact ih _ (fun y hy => hpos y (by simp [hy])) ha
  simpa [product] using fold xs 1 hpos (by simpa using h)

end Word

/-! ## Coordinates that wrap around -/

namespace Signed

theorem inRange_ofSize (n : Nat) : InRange (ofSize n) := by
  unfold InRange ofSize UInt64.size
  rw [Int.bmod_def]
  omega

/-- The coordinate of a size differs from the size by a multiple of `2 ^ 64`. -/
theorem exists_ofSize_eq (n : Nat) : ∃ k : Int, ofSize n = n + UInt64.size * k := by
  unfold ofSize UInt64.size
  rw [Int.bmod_def]
  split
  · exact ⟨-(n / 0x10000000000000000), by omega⟩
  · exact ⟨-(n / 0x10000000000000000) - 1, by omega⟩

theorem toSize_eq {z k : Int} {n : Nat} (hn : n < Word.limit) (hz : z = n + UInt64.size * k) :
    toSize z = n := by
  unfold Word.limit UInt64.size at hn
  unfold UInt64.size at hz
  unfold toSize UInt64.size
  omega

end Signed

end HaloMesh
