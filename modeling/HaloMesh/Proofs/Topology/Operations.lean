-- SUMMARY: Operations on fields that all ranks of a group perform in the same order, and what the ranks hold meanwhile.
import HaloMesh.Proofs.Topology.Success
import HaloMesh.Topology.Access
import Mathlib.Logic.Function.Basic

/-!
# Operations on fields

All ranks of a group perform the same operations on their fields, and overwrite what they may, each with
values of its own. Of what a rank holds only the regions change.
-/

namespace HaloMesh

namespace Topology

/-! ## Ranks that hold a coloring -/

/-- What a rank holds of a coloring, with its regions, one for each index space. -/
def holding (coloring : Coloring) (region : Nat → Nat → Region) (rank : Nat) : Topology :=
  { bound coloring rank with regions := (List.range coloring.indexSpaces).map (region · rank) }

section
variable {α : Type} {coloring : Coloring} {region : Nat → Nat → Region} {n rank space : Nat}

theorem checkSpace_holding : (holding coloring region rank).checkSpace space =
    if space < coloring.indexSpaces then .ok ()
    else .error (.indexSpaceOutOfRange space coloring.indexSpaces) := by
  have hspaces : (holding coloring region rank).indexSpaces = coloring.indexSpaces := by
    rw [indexSpaces, holding, bound, List.length_map, List.length_range]
  rw [checkSpace, hspaces]

theorem fetch_regions_holding (hspace : space < coloring.indexSpaces) :
    fetch (holding coloring region rank).regions space = .ok (region space rank) := by
  rw [fetch_eq_ok_iff, holding, List.getElem?_map, List.getElem?_range hspace]
  rfl

theorem region_holding (hspace : space < coloring.indexSpaces) :
    (holding coloring region rank).region space = .ok (region space rank) := by
  rw [Topology.region, ofSpace, checkSpace_holding, if_pos hspace, fetch_regions_holding hspace]
  rfl

theorem plan_holding (hspace : space < coloring.indexSpaces) :
    (holding coloring region rank).plan space = .ok (coloring.plan space rank) := by
  have hfetch : fetch (holding coloring region rank).plans space = .ok (coloring.plan space rank) := by
    rw [fetch_eq_ok_iff, holding, bound, List.getElem?_map, List.getElem?_range hspace]
    rfl
  rw [plan, ofSpace, checkSpace_holding, if_pos hspace, hfetch]
  rfl

/-- A rank holds the same after a step that leaves its region as it is. -/
theorem holding_update_self {region' : Nat → Region} (h : region' rank = region space rank) :
    holding coloring (Function.update region space region') rank = holding coloring region rank := by
  have hregion : ∀ s, Function.update region space region' s rank = region s rank := by
    intro s
    by_cases hs : s = space
    · rw [hs, Function.update_self, h]
    · rw [Function.update_of_ne hs]
  simp only [holding, hregion]

theorem holding_update (region' : Nat → Region) :
    { holding coloring region rank with
      regions := (holding coloring region rank).regions.set space (region' rank) } =
        holding coloring (Function.update region space region') rank := by
  have hregions : ((List.range coloring.indexSpaces).map (region · rank)).set space (region' rank) =
      (List.range coloring.indexSpaces).map (Function.update region space region' · rank) := by
    refine List.ext_getElem (by simp) fun s hs _ => ?_
    rw [List.getElem_set, List.getElem_map, List.getElem_map, List.getElem_range]
    split
    · rename_i heq
      subst heq
      rw [Function.update_self]
    · rename_i hne
      rw [Function.update_of_ne (Ne.symm hne)]
  rw [holding, holding, hregions]

/-- A rank acts on its region of an index space. -/
theorem onRegion_performs (hspace : space < coloring.indexSpaces) {x : CommState Region α}
    {es : List Effect} {result : Except Failure α} {region' : Nat → Region}
    (h : Program.Performs rank (x.run.run (region space rank)) es (.done (result, region' rank))) :
    Program.Performs rank ((onRegion space x).run.run (holding coloring region rank)) es
      (.done (result, holding coloring (Function.update region space region') rank)) := by
  refine (CommState.Yields.get rank _).andThen ?_
  refine (CommState.Yields.of_fault (fetch_regions_holding hspace) rank _).andThen ?_
  refine (CommState.Yields.lift h _).andThen_silent ?_
  refine (CommState.Yields.set rank _ _).andThen ?_
  rw [holding_update]
  exact CommState.performs_liftM rank result _

/-- All ranks act on their regions of an index space. -/
theorem onRegion_completes (hspace : space < coloring.indexSpaces) {x : Nat → CommState Region α}
    {a : Nat → Except Failure α} {region' : Nat → Region}
    (h : CommState.Completes n x (region space) a region') :
    CommState.Completes n (fun r => onRegion space (x r)) (holding coloring region) a
      (holding coloring (Function.update region space region')) := by
  refine CommState.Completes.bind (.of_silent fun r _ => .get r _) ?_
  refine CommState.Completes.bind
    (.of_silent fun r _ => .of_fault (fetch_regions_holding hspace) r _) ?_
  refine CommState.Completes.bind (.lift h _) ?_
  refine CommState.Completes.bind (.of_silent fun r _ => .set r _ _) ?_
  simp only [holding_update]
  exact .of_result (fun _ _ => rfl) _

/-- All ranks check that there is an index space. -/
theorem checkSpace_completes (hspace : space < coloring.indexSpaces) :
    CommState.Completes n (fun r => liftM ((holding coloring region r).checkSpace space))
      (holding coloring region) (fun _ => .ok ()) (holding coloring region) := by
  refine .of_check (fun r _ => ?_) _
  rw [checkSpace_holding, if_pos hspace]
  rfl

theorem get_completes : CommState.Completes n (fun _ => (MonadState.get : Action Topology))
    (holding coloring region) (fun r => .ok (holding coloring region r)) (holding coloring region) :=
  .of_silent fun r _ => .get r _

theorem plan_completes (hspace : space < coloring.indexSpaces) :
    CommState.Completes n (fun r => liftM ((holding coloring region r).plan space))
      (holding coloring region) (fun r => .ok (coloring.plan space r)) (holding coloring region) :=
  .of_result (fun _ _ => plan_holding hspace) _

end

/-! ## Operations -/

/-- What a rank does with a field. -/
inductive Operation where
  /-- Prepare the field for a task with the given privileges. -/
  | access (info : FieldInfo) (pack : Pack)
  /-- Copy the ghosts of the field. -/
  | ghostCopy (info : FieldInfo)
  /-- Ask for the field as elements of a type, to overwrite them. Whether the storage of the field meets
  the alignment of the type may differ from rank to rank. -/
  | fieldMut (info : FieldInfo) (elementSize : Nat) (aligned : Nat → Bool := fun _ => true)

namespace Operation

/-- The field that is operated on. -/
def info : Operation → FieldInfo
  | access info _ => info
  | ghostCopy info => info
  | fieldMut info _ _ => info

/-- Whether the ghosts of the field are to be current afterwards. -/
def refreshes : Operation → Bool
  | access _ pack => pack.shouldRefresh
  | ghostCopy _ => true
  | fieldMut _ _ _ => false

/-- Whether the rank may overwrite the field afterwards. -/
def allowsWrite : Operation → Bool
  | access _ pack => pack.allowsWrite
  | ghostCopy _ => false
  | fieldMut _ _ _ => true

/-- Perform the operation on a rank. An access says whether ghosts were copied. -/
def perform (rank : Nat) : Operation → Action (Option Bool)
  | access info pack => do return some (← Topology.access info pack)
  | ghostCopy info => do
    Topology.ghostCopy info
    return none
  | fieldMut info elementSize aligned => do
    Topology.fieldMut info ⟨elementSize, aligned rank⟩ (pure ())
    return none

/-- The outcome on a rank, given that on all ranks whose storage meets the alignment. -/
def outcomeOn (rank : Nat) : Operation → Except Failure (Option Bool) → Except Failure (Option Bool)
  | fieldMut info _ aligned, .ok result =>
    if aligned rank then .ok result else .error (.reported (.invariant (.misalignedElements info.field)))
  | _, outcome => outcome

/-- All ranks come to the same error. -/
theorem outcomeOn_error (op : Operation) (failure : Failure) :
    (fun r => op.outcomeOn r (.error failure)) = fun _ => .error failure := by
  cases op <;> rfl

/-- No rank succeeds where the others fail. -/
theorem isOk_of_outcomeOn (op : Operation) {rank : Nat} {outcome : Except Failure (Option Bool)}
    (h : (op.outcomeOn rank outcome).isOk = true) : outcome.isOk = true := by
  cases outcome with
  | ok result => rfl
  | error failure =>
    rw [congrFun (op.outcomeOn_error failure) rank] at h
    cases h

end Operation

/-- Overwrite the bytes of a field. -/
def overwrite (info : FieldInfo) (f : Bytes → Bytes) : Action Unit :=
  onRegion info.indexSpace <|
    runTask info ⟨info.typeSize, true⟩ (modify fun view => { view with bytes := f view.bytes })

/-- An operation that all ranks perform, and how each of them overwrites the field if it may. -/
structure Turn where
  operation : Operation
  /-- What a rank makes of the bytes of the field. -/
  write : Nat → Bytes → Bytes

/-- What a rank holds once it has overwritten the field if it may. -/
def Turn.finish (turn : Turn) (rank : Nat) (outcome : Except Failure (Option Bool)) (t : Topology) :
    Program Topology :=
  if turn.operation.allowsWrite && outcome.isOk then
    Prod.snd <$> (overwrite turn.operation.info (turn.write rank)).run.run t
  else pure t

/-- Take turns one after the other, and list what each operation returned and what it left. -/
def follow (rank : Nat) :
    List Turn → Topology → Program (List (Except Failure (Option Bool) × Topology))
  | [], _ => return []
  | turn :: turns, t => do
    let (outcome, t) ← (turn.operation.perform rank).run.run t
    let after ← turn.finish rank outcome t
    let rest ← follow rank turns after
    return (outcome, t) :: rest

/-- Build a topology and take turns on it. -/
def operate (mesh : Specialization) (turns : List Turn) (me : Member) :
    Comm (List (Except Failure (Option Bool) × Topology)) := do
  let t ← new me mesh
  follow me.rank turns t

end Topology

end HaloMesh
