-- SUMMARY: Whatever the transport does, exactly the ghosts that were copied and not outdated since count as current.
import HaloMesh.Proofs.Topology.Flags
import Mathlib.Data.List.Induction

/-!
# Ghosts after turns

A rank takes turns on the fields of a topology that it built, over a transport that may reply anything.
What each operation returned tells what it did to the flag of its field, so the flags after any number of
turns can be read off the calls: a flag is up exactly if some call copied the ghosts of the field, and
neither that call nor a later one outdated them.

A copy that fails is no such call. It leaves the flag as it was, although the messages that did arrive are
written: a flag that was up stays up over a mixture of old and new ghosts.
-/

namespace HaloMesh

namespace Topology

/-! ## Calls -/

/-- An operation and what it returned. -/
structure Call where
  operation : Operation
  outcome : Except Failure (Option Bool)

namespace Call

/-- The call is for this field. -/
def IsOn (call : Call) (space field : Nat) : Prop :=
  call.operation.info.indexSpace = space ∧ call.operation.info.field = field

instance (call : Call) (space field : Nat) : Decidable (call.IsOn space field) :=
  inferInstanceAs (Decidable (_ ∧ _))

/-- The call copied the ghosts of its field: a copy that returned, or an access that says so. -/
def copies : Call → Bool
  | ⟨.ghostCopy _, .ok _⟩ => true
  | ⟨.access _ _, .ok (some copied)⟩ => copied
  | _ => false

/-- The field may have been overwritten after the call without its ghosts: an access for a task that may
write, or a call for the field that came as far as its buffer. -/
def outdates : Call → Bool
  | ⟨.access _ pack, .ok _⟩ => pack.allowsWrite
  | ⟨.fieldMut info elementSize _, outcome⟩ => Region.reached info elementSize outcome
  | _ => false

end Call

/-- The ghosts of a field are current after these calls: one of them copied the ghosts, and neither it nor
a later one outdated them. -/
def Current (calls : List Call) (space field : Nat) : Prop :=
  ∃ before call after, calls = before ++ call :: after ∧ (call.IsOn space field ∧ call.copies = true) ∧
    ∀ later ∈ call :: after, later.IsOn space field → later.outdates = false

section
variable {calls : List Call} {space field : Nat}

theorem not_current_nil : ¬ Current [] space field := by
  rintro ⟨before, call, after, heq, -⟩
  cases before <;> cases heq

/-- Another call. -/
theorem current_concat_iff (last : Call) : Current (calls ++ [last]) space field ↔
    ((last.IsOn space field ∧ last.copies = true) ∨ Current calls space field) ∧
      (last.IsOn space field → last.outdates = false) := by
  constructor
  · rintro ⟨before, call, after, heq, hcopies, hlater⟩
    rcases List.eq_nil_or_concat' after with rfl | ⟨after, later, rfl⟩
    · obtain ⟨-, rfl⟩ := List.append_singleton_inj.mp heq
      exact ⟨.inl hcopies, hlater last (by simp)⟩
    · rw [← List.cons_append, ← List.append_assoc] at heq
      obtain ⟨rfl, rfl⟩ := List.append_singleton_inj.mp heq
      refine ⟨.inr ⟨before, call, after, rfl, hcopies, fun other hmem => ?_⟩, hlater last (by simp)⟩
      exact hlater other (List.cons_append ▸ List.mem_append_left _ hmem)
  · rintro ⟨hcopies | ⟨before, call, after, rfl, hcopies, hlater⟩, hlast⟩
    · exact ⟨calls, last, [], rfl, hcopies, by simpa using hlast⟩
    · refine ⟨before, call, after ++ [last], by simp, hcopies, fun later hmem hon => ?_⟩
      rcases List.mem_append.mp (List.cons_append ▸ hmem) with hmem | hmem
      · exact hlater later hmem hon
      · exact List.mem_singleton.mp hmem ▸ hlast (List.mem_singleton.mp hmem ▸ hon)

end

/-! ## Flags after calls -/

/-- The flags after a call. -/
def flagsAfter (flags : Flags) (call : Call) : Flags :=
  flags.set call.operation.info
    ((call.copies || flags call.operation.info.indexSpace call.operation.info.field) && !call.outdates)

/-- Where all flags were down, those are up of which the ghosts are current. -/
theorem foldl_flagsAfter_iff (calls : List Call) (space field : Nat) :
    calls.foldl flagsAfter (fun _ _ => false) space field = true ↔ Current calls space field := by
  induction calls using List.reverseRecOn with
  | nil => exact iff_of_false Bool.false_ne_true not_current_nil
  | append_singleton calls last ih =>
    rw [current_concat_iff, List.foldl_append, List.foldl_cons, List.foldl_nil, ← ih, flagsAfter]
    by_cases hon : last.IsOn space field
    · obtain ⟨rfl, rfl⟩ := hon
      rw [Flags.set_get, Bool.and_eq_true, Bool.or_eq_true, Bool.not_eq_true']
      simp [Call.IsOn]
    · rw [Flags.set_of_ne _ _ _ hon]
      simp [hon]

/-! ## One turn -/

section
variable (flags : Flags) (n : Nat)

/-- What an operation returns tells what it did to the flags. -/
theorem perform_flags (op : Operation) (rank : Nat) :
    CommState.Always (Shows flags n) (op.perform rank) fun outcome =>
      Shows (flagsAfter flags ⟨op, outcome⟩) n := by
  cases op with
  | access info pack =>
    refine .bind (access_flags info flags n pack) (fun copied => .pure _ fun t ht => ht) ?_
    intro failure t ht
    rw [flagsAfter, show Call.outdates ⟨.access info pack, .error failure⟩ = false from rfl,
      Bool.not_false, Bool.and_true]
    exact ht
  | ghostCopy info =>
    have hkeeps : ∀ outcome, Call.outdates ⟨.ghostCopy info, outcome⟩ = false := fun outcome => by
      cases outcome <;> rfl
    refine .bind (ghostCopy_flags info flags n) (fun _ => .pure _ fun t ht => ?_) fun failure t ht => ?_
    · rw [flagsAfter, hkeeps, Bool.not_false, Bool.and_true]
      exact ht
    · rw [flagsAfter, hkeeps, Bool.not_false, Bool.and_true]
      exact ht
  | fieldMut info elementSize aligned =>
    refine .bind (fieldMut_flags info flags n ⟨elementSize, aligned rank⟩) (fun _ => .pure _ fun t ht => ht) ?_
    exact fun failure t ht => ht

/-- What a rank writes changes no flag. -/
theorem overwrite_flags (info : FieldInfo) (f : Bytes → Bytes) :
    CommState.Always (Shows flags n) (overwrite info f) fun _ => Shows flags n := by
  unfold overwrite
  exact onRegion_keeps (fun v => runTask_flags info ⟨info.typeSize, true⟩ _ v) flags n info.indexSpace

theorem finish_flags (turn : Turn) (rank : Nat) (outcome : Except Failure (Option Bool)) {t : Topology}
    (ht : t.Shows flags n) (transport : Transport) (h : History) :
    ((turn.finish rank outcome t).runOver transport h).1.Shows flags n := by
  unfold Turn.finish
  split
  · have hwrite := overwrite_flags flags n turn.operation.info (turn.write rank) transport h t ht
    exact (Program.runOver_bind ..) ▸ hwrite
  · exact ht

/-- One turn is taken, and the rank goes on with the flags that the call accounts for. -/
theorem follow_step (rank : Nat) (turn : Turn) (turns : List Turn) {t : Topology} (ht : t.Shows flags n)
    (transport : Transport) (h : History) :
    ∃ outcome t' after h', t'.Shows (flagsAfter flags ⟨turn.operation, outcome⟩) n ∧
      after.Shows (flagsAfter flags ⟨turn.operation, outcome⟩) n ∧
      ((follow rank (turn :: turns) t).runOver transport h).1 =
        (outcome, t') :: ((follow rank turns after).runOver transport h').1 := by
  have hperform := perform_flags flags n turn.operation rank transport h t ht
  rw [follow, Program.bind_eq, Program.runOver_bind]
  generalize ((turn.operation.perform rank).run.run t).runOver transport h = ending at hperform ⊢
  obtain ⟨⟨outcome, t'⟩, h'⟩ := ending
  have hfinish := finish_flags _ n turn rank outcome hperform transport h'
  refine ⟨outcome, t', _, ((turn.finish rank outcome t').runOver transport h').2, hperform, hfinish, ?_⟩
  simp only [Program.bind_eq, Program.runOver_bind]
  rfl

end

/-! ## Many turns -/

/-- The calls of some turns. -/
def callsOf (turns : List Turn) (results : List (Except Failure (Option Bool) × Topology)) : List Call :=
  turns.zipWith (fun turn result => ⟨turn.operation, result.1⟩) results

/-- Every turn is taken, and the flags after it are those that the calls so far account for. -/
theorem follow_shows (rank : Nat) (turns : List Turn) {flags : Flags} {n : Nat} {t : Topology}
    (ht : t.Shows flags n) (transport : Transport) (h : History)
    {results : List (Except Failure (Option Bool) × Topology)}
    (hresults : ((follow rank turns t).runOver transport h).1 = results) :
    results.length = turns.length ∧ ∀ i (hi : i < results.length),
      results[i].2.Shows (((callsOf turns results).take (i + 1)).foldl flagsAfter flags) n := by
  induction turns generalizing flags t h results with
  | nil =>
    subst hresults
    exact ⟨rfl, nofun⟩
  | cons turn turns ih =>
    obtain ⟨outcome, t', after, h', hshows, hafter, heq⟩ :=
      follow_step flags n rank turn turns ht transport h
    obtain ⟨hlength, hrest⟩ := ih hafter h' rfl
    rw [heq] at hresults
    subst hresults
    refine ⟨congrArg (· + 1) hlength, fun i hi => ?_⟩
    cases i with
    | zero => exact hshows
    | succ i => exact hrest i (Nat.lt_of_succ_lt_succ hi)

/-! ## Topologies that a rank has built -/

/-- What a rank can come to hold, whatever the transport did meanwhile. -/
inductive Built (t : Topology) : Prop
  | new {me : Member} {mesh : Specialization} {transport : Transport} {h after : History}
    (hends : (Topology.new me mesh).Ends transport h t after)
  | ofColoring {me : Member} {coloring : Coloring} {indexSpaces : Nat} {transport : Transport}
    {h after : History} (hends : (Topology.ofColoring me coloring indexSpaces).Ends transport h t after)

section
variable {t : Topology} {me : Member} {coloring : Coloring} {indexSpaces : Nat} {transport : Transport}
  {h after : History}

theorem length_partitions {partitions : List Partition}
    (hpartitions : coloring.partitions indexSpaces = .ok partitions) :
    partitions.length = coloring.parts.length := by
  rw [Coloring.partitions] at hpartitions
  split at hpartitions
  · cases hpartitions
  · rw [← (Checked.mapM_eq_ok_iff.mp hpartitions).length_eq, List.length_zipIdx]

theorem length_metadata {color : Nat} {metadata : ColorMeta}
    (hmetadata : coloring.metadata color = .ok metadata) :
    metadata.spaces.length = coloring.parts.length := by
  rw [Coloring.metadata, Checked.bind_eq_ok_iff] at hmetadata
  obtain ⟨parts, hparts, heq⟩ := hmetadata
  cases heq
  exact (Checked.mapM_eq_ok_iff.mp hparts).length_eq.symm

theorem ghostsValid_of_region {partition : Partition} {color : Nat} {region : Region}
    (hregion : partition.region color = .ok region) : region.ghostsValid = fun _ => false := by
  rw [Partition.region, Checked.bind_eq_ok_iff] at hregion
  obtain ⟨size, -, heq⟩ := hregion
  cases heq
  rfl

/-- All fields of a new topology are yet to be allocated. -/
theorem shows_of_ofColoring
    (ht : (ofColoring me coloring indexSpaces).Ends transport h t after) :
    t.Shows (fun _ _ => false) t.indexSpaces := by
  unfold ofColoring at ht
  split at ht
  · obtain ⟨_, _, hreport, -⟩ := ht.of_bind
    cases hreport
  · obtain ⟨partitions, _, hpartitions, ht⟩ := ht.of_bind
    obtain ⟨plans, _, -, ht⟩ := ht.of_bind
    obtain ⟨_, _, -, ht⟩ := ht.of_bind
    obtain ⟨metadata, _, hmetadata, ht⟩ := ht.of_bind
    obtain ⟨regions, _, hregions, ht⟩ := ht.of_bind
    have hfresh := Checked.mapM_eq_ok_iff.mp hregions.eq_ok_of_fault
    have hlength : regions.length = metadata.spaces.length := by
      rw [← hfresh.length_eq, length_partitions hpartitions.eq_ok_of_result,
        length_metadata hmetadata.eq_ok_of_fault]
    cases ht
    refine ⟨funext fun space => funext fun field => ?_, hlength, rfl⟩
    rw [Topology.flags]
    cases hregion : regions[space]? with
    | none => rfl
    | some region =>
      obtain ⟨_, -, hnew⟩ := Checked.getElem?_of_forall₂ hfresh.flip hregion
      exact congrFun (ghostsValid_of_region hnew) field

theorem Built.shows (ht : Built t) : t.Shows (fun _ _ => false) t.indexSpaces := by
  cases ht with
  | ofColoring hends => exact shows_of_ofColoring hends
  | new hends =>
    unfold Topology.new at hends
    obtain ⟨_, _, -, hends⟩ := hends.of_bind
    obtain ⟨_, _, -, hends⟩ := hends.of_bind
    obtain ⟨_, _, -, hends⟩ := hends.of_bind
    obtain ⟨_, _, -, hends⟩ := hends.of_bind
    exact shows_of_ofColoring hends

end

/-- Whatever the transport does, every turn is taken, and after it the flag of a field is up exactly if its
ghosts are current by the calls so far. -/
theorem follow_flags {t : Topology} (ht : Built t) (rank : Nat) (turns : List Turn)
    (transport : Transport) (h : History) :
    let results := ((follow rank turns t).runOver transport h).1
    results.length = turns.length ∧ ∀ i (hi : i < results.length), ∀ space < t.indexSpaces,
      ∃ region, results[i].2.region space = .ok region ∧
        ∀ field, region.ghostsValid field = true ↔
          Current ((callsOf turns results).take (i + 1)) space field := by
  intro results
  obtain ⟨hlength, hshows⟩ := follow_shows rank turns ht.shows transport h rfl
  refine ⟨hlength, fun i hi space hspace => ?_⟩
  have hshows := hshows i hi
  obtain ⟨region, hregion⟩ : ∃ region, fetch results[i].2.regions space = .ok region :=
    ⟨_, fetch_eq_ok_iff.mpr (List.getElem?_eq_getElem (hshows.regions ▸ hspace))⟩
  refine ⟨region, ?_, fun field => ?_⟩
  · rw [Topology.region, ofSpace, checkSpace, hshows.spaces, if_pos hspace, hregion]
    rfl
  · rw [flags_eq_of_fetch hregion, hshows.flags_eq]
    exact foldl_flagsAfter_iff _ space field

/-! ## A copy that fails -/

/-- Rank 0 of a ring of three colors with two elements each, and one ghost on either side. -/
def ringOfThree : Topology where
  member := ⟨0, 3⟩
  spec := ⟨[⟨[3], [6], [1], [0], [true]⟩]⟩
  metadata := ⟨0, [⟨[6], [0], [4], ⟨[0], [2]⟩, ⟨[0], [2]⟩, 0⟩]⟩
  partitions := [⟨0, [[4], [4], [4]], [4, 4, 4]⟩]
  plans := [⟨0, 0, 4, 3072, [(1, [⟨3, 1, 1, 1⟩]), (2, [⟨0, 1, 2, 2⟩])],
    [(1, [⟨0, 1, 0, 2⟩]), (2, [⟨3, 1, 0, 1⟩])]⟩]
  regions := [.new 0 0 4]

/-- What rank 0 receives: the summaries of both neighbors, then the ghosts from both, and then only those
from color 1 again. -/
def ringInbox : List Delivery :=
  let summary := Summary.codec.encode ⟨1, 1⟩
  let length := LittleEndian.encode 8 summary.length
  let frame := Frame.wrap summary
  [⟨1, 2592, some length⟩, ⟨2, 2592, some length⟩, ⟨1, 2593, some frame⟩, ⟨2, 2593, some frame⟩,
    ⟨1, 3072, some [5]⟩, ⟨2, 3072, some [6]⟩, ⟨1, 3072, some [9]⟩]

theorem plan_ringOfThree {coloring : Coloring}
    (hof : Coloring.ofSpec ringOfThree.spec = .ok coloring) :
    CopyPlan.ofColoring coloring 0 0 = .ok ringOfThree.plans.headI := by
  have hrep : ringOfThree.spec.Representable := by decide
  have hspace : 0 < coloring.indexSpaces := by
    cases hof
    decide
  have hcolor : 0 < coloring.colors := by
    cases hof
    decide
  have hdefinition : coloring.spec.indexSpaces[0]? = some ⟨[3], [6], [1], [0], [true]⟩ := by
    cases hof
    rfl
  rw [CopyPlan.ofColoring_eq_planOf hrep hof hspace hdefinition hcolor]
  rfl

theorem built_ringOfThree : Built ringOfThree := by
  obtain ⟨coloring, hof⟩ : ∃ coloring, Coloring.ofSpec ringOfThree.spec = .ok coloring := ⟨_, rfl⟩
  have hplan := plan_ringOfThree hof
  have hresult : ((ofColoring ⟨0, 3⟩ coloring 1).run.runOver (.ofInbox ringInbox) []).1 =
      .ok ringOfThree := by
    unfold Topology.ofColoring CopyPlan.establish
    rw [show List.range 1 = [0] from rfl, List.mapM_cons, hplan]
    cases hof
    rfl
  exact .ofColoring (Prod.ext hresult rfl)

/-- A copy, and then an access for a task that only reads. -/
theorem follow_flags_on_ring :
    let turns : List Turn :=
      [⟨.ghostCopy ⟨0, 0, 1⟩, fun _ bytes => bytes⟩,
        ⟨.access ⟨0, 0, 1⟩ (.ofMode .ro), fun _ bytes => bytes⟩]
    let results := ((follow 0 turns ringOfThree).runOver (.ofInbox ringInbox) []).1
    Built ringOfThree ∧ results.map (·.1) = [.ok none, .ok (some false)] ∧
      results.length = 2 ∧ ∀ i (hi : i < results.length), ∀ space < ringOfThree.indexSpaces,
        ∃ region, results[i].2.region space = .ok region ∧
          ∀ field, region.ghostsValid field = true ↔
            Current ((callsOf turns results).take (i + 1)) space field := by
  intro turns results
  exact ⟨built_ringOfThree, rfl, follow_flags built_ringOfThree 0 turns (.ofInbox ringInbox) []⟩

/-- A copy that fails after one that returned leaves the flag up, over the new ghosts of one neighbor and the
old ones of the other. -/
theorem ghostsValid_after_failed_copy :
    let copy : Turn := ⟨.ghostCopy ⟨0, 0, 1⟩, fun _ bytes => bytes⟩
    Built ringOfThree ∧ ∃ (first last : Topology) (before after : Region),
      ((follow 0 [copy, copy] ringOfThree).runOver (.ofInbox ringInbox) []).1 =
        [(.ok none, first), (.error (.reported (.communication 2 .missingGhosts)), last)] ∧
      first.region 0 = .ok before ∧ before.bytes ⟨0, 0, 1⟩ = .ok [6, 0, 0, 5] ∧
      last.region 0 = .ok after ∧ after.bytes ⟨0, 0, 1⟩ = .ok [6, 0, 0, 9] ∧
      after.ghostsValid 0 = true :=
  ⟨built_ringOfThree, _, _, _, _, rfl, rfl, rfl, rfl, rfl, rfl⟩

end Topology

end HaloMesh
