-- SUMMARY: Groups of ranks that share a mailbox: the interleaving semantics and a schedule that runs it to the end.
import HaloMesh.Comm.Mailbox
import HaloMesh.Comm.Program

/-!
# Groups

A group is one program per rank and a mailbox that the ranks share. A rank can always go on, except
when it waits for a receive whose queue is empty. `Group.run` follows one of the interleavings of
`Group.Step`, in which the ranks take turns.
-/

namespace HaloMesh

namespace Program

/-! ## Steps of one rank -/

/-- The next step of the program of `rank`, if it can go on. A received message is cut to the length
that the receive allows. -/
def step? {α : Type} (rank : Nat) : Program α → Mailbox → Option (Program α × Mailbox)
  | .done _, _ => none
  | .post (.send peer tag payload) next, mail => some (next, mail.push ⟨rank, peer, tag⟩ payload)
  | .post (.receive ..) next, mail => some (next, mail)
  | .await (.send ..) next, mail => some (next none, mail)
  | .await (.receive peer tag length) next, mail =>
    match mail.pop? ⟨peer, rank, tag⟩ with
    | some (message, mail) => some (next (some (message.take length)), mail)
    | none => none
  | .log _ next, mail => some (next, mail)

/-- Run the program of `rank` for as long as it can go on. -/
def advance {α : Type} (rank : Nat) : Program α → Mailbox → Program α × Mailbox
  | .done a, mail => (.done a, mail)
  | .post (.send peer tag payload) next, mail =>
    next.advance rank (mail.push ⟨rank, peer, tag⟩ payload)
  | .post (.receive ..) next, mail => next.advance rank mail
  | .await (.send ..) next, mail => (next none).advance rank mail
  | .await (.receive peer tag length) next, mail =>
    match mail.pop? ⟨peer, rank, tag⟩ with
    | some (message, mail) => (next (some (message.take length))).advance rank mail
    | none => (.await (.receive peer tag length) next, mail)
  | .log _ next, mail => next.advance rank mail

def result? {α : Type} : Program α → Option α
  | .done a => some a
  | _ => none

/-- What is left of a program after one action. -/
inductive Rest {α : Type} : Program α → Program α → Prop where
  | post (request : Request) (next : Program α) : Rest next (.post request next)
  | await (request : Request) (next : Option Bytes → Program α) (message : Option Bytes) :
      Rest (next message) (.await request next)
  | log (record : LogRecord) (next : Program α) : Rest next (.log record next)

/-- A program cannot go on forever. -/
theorem rest_wellFounded {α : Type} : WellFounded (Rest (α := α)) := by
  refine ⟨fun p => ?_⟩
  induction p with
  | done a => exact ⟨_, fun _ h => nomatch h⟩
  | post request next ih => exact ⟨_, fun _ h => by cases h; exact ih⟩
  | await request next ih => exact ⟨_, fun _ h => by cases h; exact ih _⟩
  | log record next ih => exact ⟨_, fun _ h => by cases h; exact ih⟩

/-- A step leaves a rest of the program. -/
theorem rest_of_step {α : Type} {rank : Nat} {p p' : Program α} {mail mail' : Mailbox}
    (h : p.step? rank mail = some (p', mail')) : Rest p' p := by
  cases p with
  | done a => simp [step?] at h
  | post request next =>
    cases request <;> (simp only [step?, Option.some.injEq, Prod.mk.injEq] at h; rw [← h.1]; constructor)
  | await request next =>
    cases request with
    | send peer tag payload =>
      simp only [step?, Option.some.injEq, Prod.mk.injEq] at h
      rw [← h.1]
      constructor
    | receive peer tag length =>
      simp only [step?] at h
      split at h
      · simp only [Option.some.injEq, Prod.mk.injEq] at h
        rw [← h.1]
        constructor
      · cases h
  | log record next =>
    simp only [step?, Option.some.injEq, Prod.mk.injEq] at h
    rw [← h.1]
    constructor

/-- Advancing is taking a step for as long as there is one. -/
theorem advance_eq {α : Type} (rank : Nat) (p : Program α) (mail : Mailbox) :
    p.advance rank mail =
      match p.step? rank mail with
      | some (p', mail') => p'.advance rank mail'
      | none => (p, mail) := by
  cases p with
  | done a => rfl
  | post request next => cases request <;> rfl
  | await request next =>
    cases request with
    | send peer tag payload => rfl
    | receive peer tag length =>
      simp only [advance, step?]
      cases mail.pop? ⟨peer, rank, tag⟩ <;> rfl
  | log record next => rfl

/-- Advancing a program that can go on leaves a part of what is left after its first action. -/
theorem transGen_advance {α : Type} {rank : Nat} {p p' : Program α} {mail mail' : Mailbox}
    (h : p.step? rank mail = some (p', mail')) :
    Relation.TransGen Rest (p.advance rank mail).1 p := by
  induction p using rest_wellFounded.induction generalizing p' mail mail' with
  | h p ih =>
    have hrest := rest_of_step h
    rw [advance_eq, h]
    show Relation.TransGen Rest (p'.advance rank mail').1 p
    cases hnext : p'.step? rank mail' with
    | none =>
      rw [advance_eq, hnext]
      exact .single hrest
    | some next =>
      exact (ih p' hrest hnext).trans (.single hrest)

end Program

/-! ## Steps of a group -/

/-- The ranks of a group and the messages between them. -/
structure Group (α : Type) where
  programs : List (Program α)
  mail : Mailbox

namespace Group

def start {α : Type} (programs : List (Program α)) : Group α := ⟨programs, .empty⟩

/-- The group after `rank` takes a step, if it can go on. -/
def stepAt? {α : Type} (g : Group α) (rank : Nat) : Option (Group α) :=
  match g.programs[rank]? with
  | none => none
  | some p => (p.step? rank g.mail).map fun (p', mail) => ⟨g.programs.set rank p', mail⟩

/-- Some rank takes a step. -/
def Step {α : Type} (g g' : Group α) : Prop := ∃ rank, g.stepAt? rank = some g'

/-- The groups that interleavings of the ranks can lead to. -/
inductive Reaches {α : Type} (g : Group α) : Group α → Prop where
  | refl : Reaches g g
  | step {g' g'' : Group α} : Reaches g g' → Step g' g'' → Reaches g g''

def results? {α : Type} (g : Group α) : Option (List α) := g.programs.mapM Program.result?

/-- Some rank has not ended, but none can go on. -/
def Stuck {α : Type} (g : Group α) : Prop := g.results? = none ∧ ∀ g', ¬ Step g g'

/-! ## A schedule -/

/-- Give a turn to each rank from `rank` on: every rank goes on for as long as it can. The flag says
whether some rank could. -/
def turns {α : Type} (rank : Nat) :
    List (Program α) → Mailbox → Bool × List (Program α) × Mailbox
  | [], mail => (false, [], mail)
  | p :: rest, mail =>
    match p.step? rank mail with
    | none =>
      let (moved, rest, mail) := turns (rank + 1) rest mail
      (moved, p :: rest, mail)
    | some _ =>
      let (p, mail) := p.advance rank mail
      let (_, rest, mail) := turns (rank + 1) rest mail
      (true, p :: rest, mail)

/-- Some program of a list is replaced by what is left of it after some actions. -/
inductive Rests {α : Type} : List (Program α) → List (Program α) → Prop where
  | head {p p' : Program α} (rest : List (Program α)) :
      Relation.TransGen Program.Rest p' p → Rests (p' :: rest) (p :: rest)
  | tail (p : Program α) {rest rest' : List (Program α)} :
      Rests rest' rest → Rests (p :: rest') (p :: rest)

/-- The ranks of a group cannot go on forever. -/
theorem rests_wellFounded {α : Type} : WellFounded (Rests (α := α)) := by
  refine ⟨fun programs => ?_⟩
  induction programs with
  | nil => exact ⟨_, fun _ h => nomatch h⟩
  | cons p rest ih =>
    have hp : Acc (Relation.TransGen Program.Rest) p := Program.rest_wellFounded.transGen.apply p
    induction hp generalizing rest with
    | intro p _ ihp =>
      induction ih with
      | intro rest hrest ihrest =>
        refine ⟨_, fun other h => ?_⟩
        cases h with
        | head _ h => exact ihp _ h rest ⟨_, hrest⟩
        | tail _ h => exact ihrest _ h

/-- Turns in which some rank could go on leave a rest of the programs, and others leave them as they
are. -/
theorem turns_rests {α : Type} (rank : Nat) (programs : List (Program α)) (mail : Mailbox) :
    if (turns rank programs mail).1 then
      Relation.TransGen Rests (turns rank programs mail).2.1 programs
    else (turns rank programs mail).2.1 = programs := by
  induction programs generalizing rank mail with
  | nil => simp [turns]
  | cons p rest ih =>
    have tailGen : ∀ {q : Program α} {a b : List (Program α)},
        Relation.TransGen Rests a b → Relation.TransGen Rests (q :: a) (q :: b) := by
      intro q a b h
      induction h with
      | single h => exact .single (.tail _ h)
      | tail _ h ih => exact ih.trans (.single (.tail _ h))
    cases hstep : p.step? rank mail with
    | none =>
      have h := ih (rank + 1) mail
      simp only [turns, hstep]
      split at h
      · rename_i hmoved
        simp only [hmoved, if_true]
        exact tailGen h
      · rename_i hmoved
        simp only [hmoved]
        simp [h]
    | some next =>
      have hhead := Program.transGen_advance hstep
      have h := ih (rank + 1) (p.advance rank mail).2
      simp only [turns, hstep, if_true]
      have first : Relation.TransGen Rests ((p.advance rank mail).1 :: rest) (p :: rest) :=
        .single (.head _ hhead)
      split at h
      · exact (tailGen h).trans first
      · rw [h]
        exact first

instance {α : Type} : WellFoundedRelation (List (Program α)) where
  rel := Relation.TransGen Rests
  wf := rests_wellFounded.transGen

/-- Let the ranks take turns until none can go on. -/
def takeTurns {α : Type} (programs : List (Program α)) (mail : Mailbox) : Group α :=
  let after := turns 0 programs mail
  if after.1 then takeTurns after.2.1 after.2.2 else ⟨programs, mail⟩
termination_by programs
decreasing_by
  rename_i hmoved
  have h := turns_rests 0 programs mail
  rw [if_pos hmoved] at h
  exact h

def run {α : Type} (g : Group α) : Group α := takeTurns g.programs g.mail

end Group

end HaloMesh
