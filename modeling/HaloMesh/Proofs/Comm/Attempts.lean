-- SUMMARY: Operations attempted one after the other on a state that survives their failures.
import HaloMesh.Proofs.Comm.Replies

/-!
# Attempts

A state that survives failures can be operated on any number of times. `attemptAll` performs operations one
after the other and goes on after those that fail. What each attempt keeps, given what was attempted
before, holds after all of them.
-/

namespace HaloMesh

/-- An operation and what came of it. -/
structure Attempt (ι α : Type) where
  operation : ι
  outcome : Except Failure α

namespace Attempt

variable {ι α : Type} {told : List (Attempt ι α) → Attempt ι α → Prop} {attempts : List (Attempt ι α)}

/-- Each attempt is what the ones before it tell. -/
def Each (told : List (Attempt ι α) → Attempt ι α → Prop) (attempts : List (Attempt ι α)) : Prop :=
  ∀ i attempt, attempts[i]? = some attempt → told (attempts.take i) attempt

theorem Each.nil : Each told [] := nofun

theorem Each.concat {last : Attempt ι α} (h : Each told attempts) (hlast : told attempts last) :
    Each told (attempts ++ [last]) := by
  intro i attempt hattempt
  rcases Nat.lt_trichotomy i attempts.length with hi | rfl | hi
  · rw [List.getElem?_append_left hi] at hattempt
    rw [List.take_append_of_le_length (Nat.le_of_lt hi)]
    exact h i attempt hattempt
  · rw [List.getElem?_concat_length] at hattempt
    cases hattempt
    rw [List.take_left]
    exact hlast
  · have hlength : (attempts ++ [last]).length ≤ i := by
      rw [List.length_append]
      exact hi
    rw [List.getElem?_eq_none hlength] at hattempt
    cases hattempt

end Attempt

namespace CommState

variable {ι σ α : Type} {perform : ι → CommState σ α}

/-- Perform operations one after the other, each on the state that the one before it left. -/
def attemptAll (perform : ι → CommState σ α) : List ι → σ → Program (List (Attempt ι α) × σ)
  | [], s => return ([], s)
  | op :: ops, s => do
    let (outcome, t) ← (perform op).run.run s
    let (attempts, last) ← attemptAll perform ops t
    return (⟨op, outcome⟩ :: attempts, last)

/-- The first operation, and then the others on what it left. -/
theorem attemptAll_cons (perform : ι → CommState σ α) (op : ι) (ops : List ι) (s : σ)
    (transport : Transport) (h : History) :
    ∃ outcome t after, ((perform op).run.run s).runOver transport h = ((outcome, t), after) ∧
      ((attemptAll perform (op :: ops) s).runOver transport h).1 =
        (⟨op, outcome⟩ :: ((attemptAll perform ops t).runOver transport after).1.1,
          ((attemptAll perform ops t).runOver transport after).1.2) := by
  refine ⟨_, _, _, rfl, ?_⟩
  rw [attemptAll, Program.bind_eq, Program.runOver_bind]
  simp only [Program.bind_eq, Program.runOver_bind]
  rfl

/-- What each attempt keeps holds after all of them. -/
theorem attemptAll_keeps {admissible : ι → Prop} {inv : List (Attempt ι α) → σ → Prop}
    (hstep : ∀ attempts s op, admissible op → inv attempts s →
      Always (· = s) (perform op) fun outcome t => inv (attempts ++ [⟨op, outcome⟩]) t)
    (ops : List ι) (hops : ∀ op ∈ ops, admissible op) {before : List (Attempt ι α)} {s : σ}
    (hs : inv before s) (transport : Transport) (h : History) :
    ((attemptAll perform ops s).runOver transport h).1.1.map (·.operation) = ops ∧
      inv (before ++ ((attemptAll perform ops s).runOver transport h).1.1)
        ((attemptAll perform ops s).runOver transport h).1.2 := by
  induction ops generalizing before s h with
  | nil => exact ⟨rfl, (List.append_nil before).symm ▸ hs⟩
  | cons op ops ih =>
    obtain ⟨outcome, t, after, hperform, heq⟩ := attemptAll_cons perform op ops s transport h
    have hkept := hstep before s op (hops op List.mem_cons_self) hs transport h s rfl
    rw [hperform] at hkept
    obtain ⟨hoperations, hlast⟩ := ih (fun op' hop' => hops op' (List.mem_cons_of_mem op hop')) hkept after
    rw [heq]
    rw [List.append_assoc] at hlast
    exact ⟨congrArg (op :: ·) hoperations, hlast⟩

/-- Operations that no transport has a part in come to the same over every transport. -/
theorem attemptAll_congr
    (hperform : ∀ op s transport h transport' h', (((perform op).run.run s).runOver transport h).1 =
      (((perform op).run.run s).runOver transport' h').1) (ops : List ι) (s : σ)
    (transport transport' : Transport) (h h' : History) :
    ((attemptAll perform ops s).runOver transport h).1 =
      ((attemptAll perform ops s).runOver transport' h').1 := by
  induction ops generalizing s h h' with
  | nil => rfl
  | cons op ops ih =>
    obtain ⟨outcome, t, after, hleft, heq⟩ := attemptAll_cons perform op ops s transport h
    obtain ⟨outcome', t', after', hright, heq'⟩ := attemptAll_cons perform op ops s transport' h'
    have hsame := hperform op s transport h transport' h'
    rw [hleft, hright] at hsame
    obtain ⟨rfl, rfl⟩ := Prod.mk.inj hsame
    rw [heq, heq', ih t after after']

end CommState

end HaloMesh
