-- SUMMARY: If one interleaving of a group ends, every interleaving ends, with the same results and messages.
import HaloMesh.Proofs.Comm.Effect

/-!
# Interleavings

A network is a group whose mailbox is read channel by channel. Steps of different ranks commute, and
a rank has at most one next step, so all interleavings of a network have one end, if they have any.
It is therefore enough to follow one interleaving of a group to the end in order to know what every
other one does.
-/

namespace HaloMesh

/-! ## Networks -/

/-- The ranks of a group and the messages on every channel. -/
structure Network (α : Type) where
  programs : List (Program α)
  queues : Queues

def Group.network {α : Type} (g : Group α) : Network α := ⟨g.programs, g.mail.queue⟩

namespace Network

variable {α : Type} {net net' a b c final : Network α}

/-- A rank takes a step. -/
def StepBy (rank : Nat) (net net' : Network α) : Prop :=
  ∃ p e p', net.programs[rank]? = some p ∧ p.Does rank e p' ∧
    e.Applies net.queues net'.queues ∧ net'.programs = net.programs.set rank p'

def Step (net net' : Network α) : Prop := ∃ rank, StepBy rank net net'

/-- A number of steps lead from one network to another. -/
inductive Steps : Nat → Network α → Network α → Prop
  | refl (net : Network α) : Steps 0 net net
  | step {k : Nat} {net net' final : Network α} :
      Step net net' → Steps k net' final → Steps (k + 1) net final

theorem Steps.trans {j k : Nat} (h : Steps j a b) (h' : Steps k b c) : Steps (j + k) a c := by
  induction h with
  | refl => rwa [Nat.zero_add]
  | step hstep _ ih =>
    rw [Nat.add_right_comm]
    exact .step hstep (ih h')

/-! ## Confluence -/

theorem StepBy.deterministic {rank : Nat} (ha : StepBy rank net a) (hb : StepBy rank net b) :
    a = b := by
  obtain ⟨p, e, p', hp, hdoes, happlies, hprograms⟩ := ha
  obtain ⟨p₂, e₂, p₂', hp₂, hdoes₂, happlies₂, hprograms₂⟩ := hb
  cases hp.symm.trans hp₂
  obtain ⟨rfl, hqueues⟩ := hdoes.deterministic hdoes₂ happlies happlies₂
  cases a
  cases b
  simp only at hprograms hprograms₂ hqueues
  rw [hprograms, hprograms₂, hqueues]

/-- Steps of different ranks commute. -/
theorem StepBy.diamond {r s : Nat} (hne : r ≠ s) (ha : StepBy r net a) (hb : StepBy s net b) :
    ∃ c, StepBy s a c ∧ StepBy r b c := by
  obtain ⟨p, e, p', hp, hdoes, happlies, hprograms⟩ := ha
  obtain ⟨q, f, q', hq, hdoes', happlies', hprograms'⟩ := hb
  obtain ⟨queues, hs, hr⟩ := Effect.commute hne hdoes.ownedBy hdoes'.ownedBy happlies happlies'
  refine ⟨⟨(net.programs.set r p').set s q', queues⟩, ⟨q, f, q', ?_, hdoes', hs, ?_⟩,
    ⟨p, e, p', ?_, hdoes, hr, ?_⟩⟩
  · rw [hprograms, List.getElem?_set_ne hne, hq]
  · rw [hprograms]
  · rw [hprograms', List.getElem?_set_ne (Ne.symm hne), hp]
  · rw [hprograms', List.set_comm _ _ hne]

/-- No rank can go on. -/
def Final (net : Network α) : Prop := ∀ net', ¬ Step net net'

theorem final_of_done {results : List α} (h : net.programs = results.map .done) : Final net := by
  rintro net' ⟨rank, p, e, p', hp, hdoes, -⟩
  rw [h, List.getElem?_map, Option.map_eq_some_iff] at hp
  obtain ⟨a, -, rfl⟩ := hp
  cases hdoes

/-- A step does not lead away from the end of a run. -/
theorem steps_of_step {k : Nat} (h : Steps k net final) (hfinal : Final final)
    (hstep : Step net net') : ∃ j, Steps j net' final := by
  obtain ⟨s, hs⟩ := hstep
  induction h generalizing net' with
  | refl => exact absurd ⟨s, hs⟩ (hfinal net')
  | @step k net first final hfirst hrest ih =>
    obtain ⟨r, hr⟩ := hfirst
    by_cases heq : r = s
    · subst heq
      rw [hs.deterministic hr]
      exact ⟨k, hrest⟩
    · -- The two steps meet again, and the run goes on from there.
      obtain ⟨meet, hmeet, hmeet'⟩ := hr.diamond heq hs
      obtain ⟨j, hj⟩ := ih hfinal hmeet
      exact ⟨j + 1, .step ⟨r, hmeet'⟩ hj⟩

/-- All runs that can still go on come to the same end. -/
theorem steps_of_steps {j k : Nat} (h : Steps k net final) (hfinal : Final final)
    (hmid : Steps j net a) : ∃ i, Steps i a final := by
  induction hmid generalizing k with
  | refl => exact ⟨k, h⟩
  | step hstep _ ih =>
    obtain ⟨i, hi⟩ := steps_of_step h hfinal hstep
    exact ih hi

end Network

/-! ## Groups -/

namespace Group

variable {α : Type}

theorem network_step {g g' : Group α} (h : Step g g') : Network.Step g.network g'.network := by
  obtain ⟨rank, h⟩ := h
  unfold stepAt? at h
  split at h
  · cases h
  · rename_i p hp
    obtain ⟨⟨p', mail⟩, hstep, rfl⟩ := Option.map_eq_some_iff.mp h
    obtain ⟨e, hdoes, happlies⟩ := Program.does_of_step hstep
    exact ⟨rank, p, e, p', hp, hdoes, happlies, rfl⟩

theorem step_of_network {g : Group α} {net : Network α} (h : Network.Step g.network net) :
    ∃ g', Step g g' ∧ g'.network = net := by
  obtain ⟨rank, p, e, p', hp, hdoes, happlies, hprograms⟩ := h
  obtain ⟨mail, hstep, hmail⟩ := Program.step_of_does hdoes happlies
  refine ⟨⟨g.programs.set rank p', mail⟩, ⟨rank, ?_⟩, ?_⟩
  · have hp' : g.programs[rank]? = some p := hp
    rw [stepAt?, hp']
    exact Option.map_eq_some_iff.mpr ⟨_, hstep, rfl⟩
  · cases net
    cases hprograms
    cases hmail
    rfl

theorem steps_of_reaches {g g' : Group α} (h : Reaches g g') :
    ∃ k, Network.Steps k g.network g'.network := by
  induction h with
  | refl => exact ⟨0, .refl _⟩
  | step _ hstep ih =>
    obtain ⟨k, hk⟩ := ih
    exact ⟨k + 1, hk.trans (.step (network_step hstep) (.refl _))⟩

/-- A group cannot go on forever. -/
theorem acc_step (g : Group α) : Acc (fun g' g => Step g g') g := by
  have hrests : ∀ {g g' : Group α}, Step g g' → Rests g'.programs g.programs := by
    rintro g g' ⟨rank, h⟩
    unfold stepAt? at h
    split at h
    · cases h
    · rename_i p hp
      obtain ⟨⟨p', mail⟩, hstep, rfl⟩ := Option.map_eq_some_iff.mp h
      have hrest := Program.rest_of_step hstep
      have hset : ∀ (programs : List (Program α)) (rank : Nat), programs[rank]? = some p →
          Rests (programs.set rank p') programs := by
        intro programs
        induction programs with
        | nil => exact fun _ h => nomatch h
        | cons first rest ih =>
          intro rank h
          cases rank with
          | zero =>
            cases h
            exact .head _ (.single hrest)
          | succ rank => exact .tail _ (ih rank h)
      exact hset g.programs rank hp
  have hacc : Acc Rests g.programs := rests_wellFounded.apply g.programs
  generalize hprograms : g.programs = programs at hacc
  induction hacc generalizing g with
  | intro programs _ ih =>
    subst hprograms
    exact ⟨_, fun g' hstep => ih _ (hrests hstep) g' rfl⟩

theorem results?_eq_some_iff {g : Group α} {results : List α} :
    g.results? = some results ↔ g.programs = results.map .done := by
  unfold results?
  induction g.programs generalizing results with
  | nil =>
    cases results with
    | nil => exact ⟨fun _ => rfl, fun _ => rfl⟩
    | cons a results => exact ⟨nofun, nofun⟩
  | cons p programs ih =>
    rw [List.mapM_cons, Option.bind_eq_bind, Option.bind_eq_some_iff]
    simp only [Option.bind_eq_bind, Option.bind_eq_some_iff, ih]
    constructor
    · rintro ⟨a, ha, rest, rfl, heq⟩
      cases heq
      cases p with
      | done b =>
        cases ha
        rfl
      | post request next => cases ha
      | await request next => cases ha
      | log record next => cases ha
    · intro heq
      cases results with
      | nil => cases heq
      | cons a results =>
        obtain ⟨rfl, rfl⟩ := List.cons_eq_cons.mp heq
        exact ⟨a, rfl, results, rfl, rfl⟩

/-- Whatever the order in which the ranks of a group take their steps: the group ends after finitely
many steps, no rank is left waiting, the ranks have the given results, and no message is left. -/
structure Settles (g : Group α) (results : List α) : Prop where
  progress : ∀ g', Reaches g g' → ¬ g'.Stuck
  terminates : Acc (fun g' g => Step g g') g
  results_eq : ∀ g', Reaches g g' → ∀ rs, g'.results? = some rs → rs = results
  no_mail : ∀ g', Reaches g g' → g'.results?.isSome → ∀ channel, g'.mail.queue channel = []

/-- Some interleaving ends. -/
theorem Settles.exists_reaches {g : Group α} {results : List α} (h : g.Settles results) :
    ∃ g', Reaches g g' ∧ g'.results? = some results := by
  have hend : ∀ g', Reaches g g' → Acc (fun b a => Step a b) g' →
      ∃ g'', Reaches g g'' ∧ g''.results?.isSome := by
    intro g' hg' hacc
    induction hacc with
    | intro g' _ ih =>
      by_cases hsome : g'.results?.isSome
      · exact ⟨g', hg', hsome⟩
      · have hnone : g'.results? = none := Option.not_isSome_iff_eq_none.mp hsome
        rcases Classical.em (∃ next, Step g' next) with ⟨next, hnext⟩ | hstuck
        · exact ih next hnext (hg'.step hnext)
        · exact absurd ⟨hnone, not_exists.mp hstuck⟩ (h.progress g' hg')
  obtain ⟨g', hg', hsome⟩ := hend g .refl h.terminates
  obtain ⟨rs, hrs⟩ := Option.isSome_iff_exists.mp hsome
  exact ⟨g', hg', h.results_eq g' hg' rs hrs ▸ hrs⟩

/-- If one interleaving ends with all results and no messages, all of them do. -/
theorem settles_of_steps {g : Group α} {results : List α} {k : Nat}
    (h : Network.Steps k g.network ⟨results.map .done, .empty⟩) : g.Settles results := by
  have hfinal : Network.Final (⟨results.map .done, .empty⟩ : Network α) := Network.final_of_done rfl
  have hreach : ∀ g', Reaches g g' →
      ∃ j, Network.Steps j g'.network ⟨results.map .done, .empty⟩ := by
    intro g' hg'
    induction hg' with
    | refl => exact ⟨k, h⟩
    | step _ hstep ih =>
      obtain ⟨j, hj⟩ := ih
      exact Network.steps_of_step hj hfinal (network_step hstep)
  have hended : ∀ g', Reaches g g' → ∀ rs, g'.results? = some rs →
      g'.network = ⟨results.map .done, .empty⟩ := by
    intro g' hg' rs hrs
    obtain ⟨j, hj⟩ := hreach g' hg'
    have hstops : Network.Final g'.network := Network.final_of_done (results?_eq_some_iff.mp hrs)
    generalize g'.network = net at hj hstops
    cases hj with
    | refl => rfl
    | step hstep _ => exact absurd hstep (hstops _)
  refine ⟨fun g' hg' hstuck => ?_, g.acc_step, fun g' hg' rs hrs => ?_, fun g' hg' hsome => ?_⟩
  · obtain ⟨hnone, hnostep⟩ := hstuck
    obtain ⟨j, hj⟩ := hreach g' hg'
    generalize hnet : g'.network = net at hj
    cases hj with
    | refl =>
      have hprograms : g'.programs = results.map .done := congrArg Network.programs hnet
      rw [results?_eq_some_iff.mpr hprograms] at hnone
      cases hnone
    | step hstep _ =>
      obtain ⟨g'', hstep', -⟩ := step_of_network (hnet ▸ hstep)
      exact hnostep g'' hstep'
  · have hprograms : g'.programs = results.map .done :=
      congrArg Network.programs (hended g' hg' rs hrs)
    rw [results?_eq_some_iff.mpr hprograms, Option.some.injEq] at hrs
    exact hrs.symm
  · obtain ⟨rs, hrs⟩ := Option.isSome_iff_exists.mp hsome
    have hqueues : g'.mail.queue = Queues.empty := congrArg Network.queues (hended g' hg' rs hrs)
    exact fun channel => congrFun hqueues channel

end Group

end HaloMesh
