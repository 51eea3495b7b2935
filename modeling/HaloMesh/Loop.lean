-- SUMMARY: Counted loops that stop at the first failure.

namespace HaloMesh

/-- Run `body` at `n` consecutive indices from `start` on, passing the state along. -/
def countFrom {m : Type → Type} [Monad m] {σ : Type} (body : Nat → σ → m σ) : Nat → Nat → σ → m σ
  | 0, _, state => pure state
  | n + 1, start, state => do
    let state ← body start state
    countFrom body n (start + 1) state

/-- Run `body` at the indices below `n`, in order. -/
def countUpTo {m : Type → Type} [Monad m] {σ : Type} (n : Nat) (body : Nat → σ → m σ) (state : σ) :
    m σ :=
  countFrom body n 0 state

/-- A counted loop is a fold over the list of its indices. -/
theorem countFrom_eq_foldlM {m : Type → Type} [Monad m] {σ : Type} (body : Nat → σ → m σ)
    (n start : Nat) (state : σ) :
    countFrom body n start state = (List.range' start n).foldlM (fun s i => body i s) state := by
  induction n generalizing start state with
  | zero => rfl
  | succ n ih => simp only [countFrom, List.range'_succ, List.foldlM_cons, ih]

/-- A counted loop from zero is a fold over the indices below its bound. -/
theorem countUpTo_eq_foldlM {m : Type → Type} [Monad m] {σ : Type} (n : Nat)
    (body : Nat → σ → m σ) (state : σ) :
    countUpTo n body state = (List.range n).foldlM (fun s i => body i s) state := by
  rw [countUpTo, countFrom_eq_foldlM, List.range_eq_range']

end HaloMesh
