-- SUMMARY: Ranks that do the same with their fields agree on every copy, and what is copied is current on all of them.
import HaloMesh.Proofs.CopyPlan.Coherence
import HaloMesh.Proofs.Topology.Operations

/-!
# Ghosts and the ranks of a group

All ranks of a group perform the same operations on their fields, and overwrite what they may, each with
values of its own. A rank decides alone whether to copy ghosts, and a copy waits for messages of the
other ranks, so the group would be stuck if two of them decided differently.

They do not, because an operation leaves coherent regions coherent whatever its outcome, and the outcome
depends on the flags only, on which coherent regions agree. Writes keep this up, as a rank may write only
where the flag is down. Only the storage of a rank can keep it from a view that the others get, and that
changes no flag.
-/

namespace HaloMesh

namespace Topology

/-! ## One operation -/

/-- The regions of every index space are coherent. -/
def Consistent (coloring : Coloring) (n : Nat) (status : Nat → Statuses)
    (region : Nat → Nat → Region) : Prop :=
  ∀ s < coloring.indexSpaces, Coherent n s (coloring.plan s) (status s) (region s)

section
variable {coloring : Coloring} {n : Nat} {status : Nat → Statuses} {region : Nat → Nat → Region}
  {info : FieldInfo}

theorem Consistent.update (h : Consistent coloring n status region) {space : Nat} {status' : Statuses}
    {region' : Nat → Region} (h' : Coherent n space (coloring.plan space) status' region') :
    Consistent coloring n (Function.update status space status')
      (Function.update region space region') := by
  intro s hs
  by_cases heq : s = space
  · subst heq
    rw [Function.update_self, Function.update_self]
    exact h'
  · rw [Function.update_of_ne heq, Function.update_of_ne heq]
    exact h s hs

theorem update_set_self (status : Nat → Statuses) (space : Nat) (st : Statuses) (info : FieldInfo)
    (valid : Bool) : Function.update status space (st.set info valid) space info.field =
      some ⟨info.typeSize, valid⟩ := by
  rw [Function.update_self, Statuses.set_self]

/-- What an operation leaves on all ranks. -/
structure Operation.Leaves (op : Operation) (coloring : Coloring) (n : Nat)
    (outcome : Except Failure (Option Bool)) (status : Nat → Statuses)
    (region : Nat → Nat → Region) : Prop where
  consistent : Consistent coloring n status region
  reported : ∀ cause, outcome ≠ .error (.fault cause)
  accepted : outcome.isOk = true → op.info.indexSpace < coloring.indexSpaces ∧
    ∃ valid, status op.info.indexSpace op.info.field = some ⟨op.info.typeSize, valid⟩ ∧
      (op.allowsWrite = true → valid = false)
  filled : outcome.isOk = true → op.refreshes = true → ∀ r < n,
    (coloring.plan op.info.indexSpace r).Filled op.info.typeSize
      (fun r => (region op.info.indexSpace r).content op.info.field)
      ((region op.info.indexSpace r).content op.info.field)

theorem Operation.leaves_error (op : Operation) (h : Consistent coloring n status region)
    (error : MeshError) : op.Leaves coloring n (.error (.reported error)) status region where
  consistent := h
  reported _ heq := by cases heq
  accepted hok := by cases hok
  filled hok := by cases hok

/-- No rank operates on a field of an index space that there is not. -/
theorem Operation.rejects_space (op : Operation)
    (hspace : ¬ op.info.indexSpace < coloring.indexSpaces) :
    CommState.Completes n (fun r => op.perform r) (holding coloring region)
      (fun _ => .error (.reported (.indexSpaceOutOfRange op.info.indexSpace coloring.indexSpaces)))
      (holding coloring region) := by
  have hcheck : CommState.Completes n
      (fun r => liftM ((holding coloring region r).checkSpace op.info.indexSpace))
      (holding coloring region)
      (fun _ => .error (.reported (.indexSpaceOutOfRange op.info.indexSpace coloring.indexSpaces)))
      (holding coloring region) := by
    refine .of_check (fun r _ => ?_) _
    rw [checkSpace_holding, if_neg hspace]
    rfl
  cases op with
  | access info pack => exact (get_completes.bind (hcheck.fail _)).fail _
  | fieldMut info elementSize aligned => exact (get_completes.bind (hcheck.fail _)).fail _
  | ghostCopy info =>
    have hplan : CommState.Completes n
        (fun r => liftM ((holding coloring region r).plan info.indexSpace)) (holding coloring region)
        (fun _ => .error (.reported (.indexSpaceOutOfRange info.indexSpace coloring.indexSpaces)))
        (holding coloring region) := by
      refine .of_result (fun r _ => ?_) _
      have hnone : ¬ info.indexSpace < coloring.indexSpaces := hspace
      rw [plan, ofSpace, checkSpace_holding, if_neg hnone]
      rfl
    exact (get_completes.bind (hplan.fail _)).fail _

/-! ## Tasks -/

/-- Whether the elements of a field can be viewed as those of a type. -/
def viewable (info : FieldInfo) (element : Region.ElementType) : Except MeshError Unit :=
  if element.size = info.typeSize then
    if element.aligned then .ok () else .error (.invariant (.misalignedElements info.field))
  else .error (.fieldTypeSize info.field info.typeSize element.size)

section
variable {α : Type} {region : Region} (hadmits : region.Admits info) {st : FieldStatus}
  (hst : region.status info.field = some st)
  (hmod : (region.content info.field).length % info.typeSize = 0)
include hadmits hst hmod

/-- A field that has a buffer is viewed as it is. -/
theorem ensureView_performs (element : Region.ElementType) (rank : Nat) :
    Program.Performs rank ((Region.ensureView info element).run.run region) []
      (.done (liftM ((viewable info element).map fun _ =>
        (⟨info.typeSize, region.content info.field⟩ : Region.View)), region)) := by
  obtain ⟨size, aligned⟩ := element
  by_cases hsize : size = info.typeSize
  · subst hsize
    have hensure := hadmits.ensure_yields rank
    rw [Region.ensured_of_status hst] at hensure
    refine (CommState.Yields.of_error (if_pos rfl) rank region).andThen ?_
    refine hensure.andThen ((CommState.Yields.get rank region).andThen ?_)
    refine (CommState.Yields.of_error
      (Region.bytes_eq_content hadmits.space_eq hst) rank region).andThen ?_
    rw [viewable, if_pos rfl]
    cases aligned with
    | true =>
      rw [Region.castTo, if_pos hmod]
      exact .refl _
    | false => exact .refl _
  · rw [viewable, if_neg hsize, Region.ensureView, Region.checkElement, if_neg hsize]
    exact .refl _

/-- A task runs on the field of a region that has a buffer for it. -/
theorem runTask_yields {task : Task α} {a : α} {view : Region.View}
    (htask : task.run.run ⟨info.typeSize, region.content info.field⟩ = (.ok a, view)) (rank : Nat) :
    CommState.Yields rank (runTask info ⟨info.typeSize, true⟩ task) region [] a
      (region.setBytes info.field view.bytes) := by
  have hview := ensureView_performs hadmits hst hmod ⟨info.typeSize, true⟩ rank
  rw [viewable, if_pos rfl] at hview
  refine CommState.Yields.bind_silent hview ?_
  rw [htask]
  exact (CommState.Yields.update rank _ region).bind_silent (.pure rank a _)

/-- To ask for a field changes nothing if it has its buffer. -/
theorem runTask_pure_performs (element : Region.ElementType) (rank : Nat) :
    Program.Performs rank ((runTask info element (pure ())).run.run region) []
      (.done (liftM (viewable info element), region)) := by
  have hview := ensureView_performs hadmits hst hmod element rank
  cases hviewable : viewable info element with
  | error error =>
    rw [hviewable] at hview
    exact Program.Performs.trans (Program.Performs.bind hview _) (.refl _)
  | ok _ =>
    rw [hviewable] at hview
    have hkeep := (CommState.Yields.update rank
      (·.setBytes info.field (region.content info.field)) region).bind_silent (.pure rank () _)
    rw [Region.setBytes_content hst] at hkeep
    exact CommState.Yields.bind_silent hview hkeep

end

/-! ## Operations on a field of an index space -/

section
variable (hspans : coloring.Spans n) (hspace : info.indexSpace < coloring.indexSpaces)
  (h : Consistent coloring n status region)
  (hroom : Roomy n (coloring.plan info.indexSpace) info)
include hspans hspace h hroom

/-- No rank operates on a field whose elements have another size in its buffer. -/
theorem Operation.rejects_size {op : Operation} (hinfo : op.info = info) {st : FieldStatus}
    (hst : status info.indexSpace info.field = some st) (hsize : st.typeSize ≠ info.typeSize) :
    CommState.Completes n (fun r => op.perform r) (holding coloring region)
      (fun _ => .error (.reported (.fieldTypeSize info.field st.typeSize info.typeSize)))
      (holding coloring region) := by
  have hcoherent := h info.indexSpace hspace
  have hensure := hcoherent.ensure_rejects rfl hroom hst hsize
  have hrefresh := hcoherent.refresh_rejects (hspans.concert hspace) rfl hroom hst hsize
  have hsame : Function.update region info.indexSpace (region info.indexSpace) = region :=
    Function.update_eq_self ..
  cases op with
  | access info' pack =>
    cases hinfo
    have hprepare := onRegion_completes hspace (hensure.fail fun _ _ => do
      return pack.shouldRefresh && !(← get).ghostsValid info'.field)
    rw [hsame] at hprepare
    exact (get_completes.bind ((checkSpace_completes hspace).bind (hprepare.fail _))).fail _
  | ghostCopy info' =>
    cases hinfo
    have hcopy := onRegion_completes hspace hrefresh
    rw [hsame] at hcopy
    exact (get_completes.bind ((plan_completes hspace).bind hcopy)).fail _
  | fieldMut info' elementSize aligned =>
    cases hinfo
    have hview := onRegion_completes hspace (hensure.fail fun r _ => do
      modify (·.setGhostsValid info'.field false)
      runTask info' ⟨elementSize, aligned r⟩ (pure ()))
    rw [hsame] at hview
    exact (get_completes.bind ((checkSpace_completes hspace).bind hview)).fail _

/-- All ranks copy the ghosts of a field. -/
theorem ghostCopy_completes (hadmits : (status info.indexSpace).Admits info) :
    ∃ region', CommState.Completes n (fun _ => Topology.ghostCopy info) (holding coloring region)
        (fun _ => .ok ()) (holding coloring (Function.update region info.indexSpace region')) ∧
      Coherent n info.indexSpace (coloring.plan info.indexSpace)
        ((status info.indexSpace).set info true) region' := by
  obtain ⟨region', hcompletes, hafter⟩ :=
    (h info.indexSpace hspace).refresh_completes (hspans.concert hspace) rfl hroom hadmits
  exact ⟨region', get_completes.bind ((plan_completes hspace).bind
    (onRegion_completes hspace hcompletes)), hafter⟩

/-- All ranks give a field its buffer, and agree on whether a task needs a copy of its ghosts. -/
theorem prepare_completes (hadmits : (status info.indexSpace).Admits info) (pack : Pack) :
    CommState.Completes n (fun _ => onRegion info.indexSpace (prepare info pack))
      (holding coloring region)
      (fun _ => .ok (pack.shouldRefresh && !(status info.indexSpace).ghostsValid info.field))
      (holding coloring (Function.update region info.indexSpace
        fun r => (region info.indexSpace r).ensured info)) := by
  have hcoherent := h info.indexSpace hspace
  have hensured := hcoherent.ensured (hspans.concert hspace) hadmits
  have hensure := hcoherent.ensure_completes rfl hroom hadmits
  refine onRegion_completes hspace (hensure.bind ?_)
  refine CommState.Completes.bind (.of_silent fun r _ => .get r _) (.of_silent fun r hr => ?_)
  rw [Region.ghostsValid_eq, hensured.status_eq r hr, Statuses.ghostsValid_set_self]
  exact .pure r _ _

end

/-- All ranks mark the ghosts of a field as stale if a task may write. -/
theorem markStale_completes (hspans : coloring.Spans n)
    (hspace : info.indexSpace < coloring.indexSpaces) (h : Consistent coloring n status region)
    {valid : Bool} (hst : status info.indexSpace info.field = some ⟨info.typeSize, valid⟩)
    (writes : Bool) {α : Type} (a : α) :
    ∃ status' region', CommState.Completes n
        (fun _ => do
          if writes then
            onRegion info.indexSpace do modify (·.setGhostsValid info.field false)
          return a) (holding coloring region) (fun _ => .ok a) (holding coloring region') ∧
      Consistent coloring n status' region' ∧
      (∃ valid, status' info.indexSpace info.field = some ⟨info.typeSize, valid⟩ ∧
        (writes = true → valid = false)) ∧
      ∀ r, (region' info.indexSpace r).content info.field =
        (region info.indexSpace r).content info.field := by
  cases writes with
  | false =>
    refine ⟨status, region, .of_silent fun r _ => .pure r a _, h, ⟨valid, hst, ?_⟩, fun _ => rfl⟩
    intro hwrites
    cases hwrites
  | true =>
    have hstale := (h info.indexSpace hspace).markStale (hspans.concert hspace) hst rfl
    have hmark := @onRegion_completes Unit coloring region n info.indexSpace hspace
      (fun _ => modify (·.setGhostsValid info.field false)) (fun _ => .ok ()) _
      (.of_silent fun r _ => .update r _ _)
    refine ⟨_, _, hmark.bind (.of_silent fun r _ => .pure r a _), h.update hstale,
      ⟨false, update_set_self .., fun _ => rfl⟩, fun r => ?_⟩
    rw [Function.update_self, Region.content_setGhostsValid]

/-- All ranks end an access of a field whose ghosts are current if the task needs them. -/
theorem access_ends (hspans : coloring.Spans n) (hspace : info.indexSpace < coloring.indexSpaces)
    (h : Consistent coloring n status region) {valid : Bool}
    (hst : status info.indexSpace info.field = some ⟨info.typeSize, valid⟩) {pack : Pack}
    (hcurrent : pack.shouldRefresh = true → valid = true) (needed : Bool) :
    ∃ status' region', CommState.Completes n
        (fun _ => do
          if pack.allowsWrite then
            onRegion info.indexSpace do modify (·.setGhostsValid info.field false)
          return needed) (holding coloring region) (fun _ => .ok needed) (holding coloring region') ∧
      (Operation.access info pack).Leaves coloring n (.ok (some needed)) status' region' := by
  obtain ⟨status', region', hcompletes, hconsistent, hvalid, hcontent⟩ :=
    markStale_completes hspans hspace h hst pack.allowsWrite needed
  refine ⟨status', region', hcompletes, ⟨hconsistent, nofun, fun _ => ⟨hspace, hvalid⟩, ?_⟩⟩
  intro _ hrefreshes r hr
  have hfilled := (h info.indexSpace hspace).filled info.field _ hst (hcurrent hrefreshes) r hr
  simp only [Operation.info, hcontent]
  exact hfilled

section
variable (hspans : coloring.Spans n) (hspace : info.indexSpace < coloring.indexSpaces)
  (h : Consistent coloring n status region)
  (hroom : Roomy n (coloring.plan info.indexSpace) info)
  (hadmits : (status info.indexSpace).Admits info)
include hspans hspace h hroom hadmits

/-- All ranks prepare a field for a task, and agree on whether its ghosts are copied. -/
theorem access_completes (pack : Pack) :
    ∃ needed status' region', CommState.Completes n (fun _ => Topology.access info pack)
        (holding coloring region) (fun _ => .ok needed) (holding coloring region') ∧
      (Operation.access info pack).Leaves coloring n (.ok (some needed)) status' region' := by
  have hprepare := prepare_completes hspans hspace h hroom hadmits pack
  have hensured := h.update ((h info.indexSpace hspace).ensured (hspans.concert hspace) hadmits)
  cases hneeded : pack.shouldRefresh && !(status info.indexSpace).ghostsValid info.field with
  | false =>
    rw [hneeded] at hprepare
    have hcurrent : pack.shouldRefresh = true →
        (status info.indexSpace).ghostsValid info.field = true := by
      intro hrefresh
      rw [hrefresh, Bool.true_and, Bool.not_eq_false'] at hneeded
      exact hneeded
    obtain ⟨status', region', hends, hleaves⟩ :=
      access_ends hspans hspace hensured (update_set_self ..) hcurrent false
    exact ⟨false, status', region', get_completes.bind ((checkSpace_completes hspace).bind
      (hprepare.bind hends)), hleaves⟩
  | true =>
    rw [hneeded] at hprepare
    obtain ⟨copied, hcopy, hcopied⟩ := ghostCopy_completes hspans hspace hensured hroom
      (Statuses.admits_of_eq (update_set_self ..))
    obtain ⟨status', region', hends, hleaves⟩ :=
      access_ends hspans hspace (hensured.update hcopied) (update_set_self ..) (fun _ => rfl) true
    exact ⟨true, status', region', get_completes.bind ((checkSpace_completes hspace).bind
      (hprepare.bind (hcopy.bind hends))), hleaves⟩

/-- All ranks give a field its buffer, take its flag down and ask for a view. -/
theorem view_completes (elementSize : Nat) (aligned : Nat → Bool) :
    CommState.Completes n
        (fun r => do
          Region.ensure info
          modify (·.setGhostsValid info.field false)
          runTask info ⟨elementSize, aligned r⟩ (pure ())) (region info.indexSpace)
        (fun r => liftM (viewable info ⟨elementSize, aligned r⟩))
        (fun r => ((region info.indexSpace r).ensured info).setGhostsValid info.field false) ∧
      Coherent n info.indexSpace (coloring.plan info.indexSpace)
        ((status info.indexSpace).set info false)
        fun r => ((region info.indexSpace r).ensured info).setGhostsValid info.field false := by
  have hconcert := hspans.concert hspace
  have hcoherent := h info.indexSpace hspace
  have hset := fun valid => (status info.indexSpace).set_self info valid
  have hstale := (hcoherent.ensured hconcert hadmits).markStale hconcert (hset _) rfl
  rw [Statuses.set_set] at hstale
  refine ⟨(hcoherent.ensure_completes rfl hroom hadmits).bind ?_, hstale⟩
  refine CommState.Completes.bind (.of_silent fun r _ => .update r _ _) ?_
  refine Completes.of_silent fun r hr => ?_
  refine runTask_pure_performs
    (hstale.admits hr rfl hroom (Statuses.admits_of_eq (hset false)))
    ((hstale.status_apply hr _).trans (hset false)) ?_ _ r
  rw [hstale.length_eq r hr _ _ (hset false)]
  exact Nat.mul_mod_left _ _

/-- All ranks ask for a field to overwrite it. They agree on whether its elements have the size that
they ask for, and those whose storage meets the alignment get a view. -/
theorem fieldMut_completes (elementSize : Nat) (aligned : Nat → Bool) :
    ∃ outcome status' region', CommState.Completes n
        (fun r => (Operation.fieldMut info elementSize aligned).perform r) (holding coloring region)
        (fun r => (Operation.fieldMut info elementSize aligned).outcomeOn r outcome)
        (holding coloring region') ∧
      (Operation.fieldMut info elementSize aligned).Leaves coloring n outcome status' region' := by
  obtain ⟨hview, hstale⟩ := view_completes hspans hspace h hroom hadmits elementSize aligned
  have hasks : CommState.Completes n
      (fun r => Topology.fieldMut info ⟨elementSize, aligned r⟩ (pure ())) (holding coloring region) _ _ :=
    get_completes.bind ((checkSpace_completes hspace).bind (onRegion_completes hspace hview))
  have hacts := hasks.replace (none : Option Bool)
  by_cases hsize : elementSize = info.typeSize
  · refine ⟨.ok none, _, _, Completes.congr hacts (fun _ _ => rfl) fun r _ => Prod.ext ?_ rfl,
      h.update hstale, nofun, fun _ => ⟨hspace, false, update_set_self .., fun _ => rfl⟩, nofun⟩
    simp only [Operation.outcomeOn, viewable, if_pos hsize]
    cases aligned r with
    | true => rfl
    | false => rfl
  · refine ⟨.error (.reported (.fieldTypeSize info.field info.typeSize elementSize)), _, _,
      Completes.congr hacts (fun _ _ => rfl) fun r _ => Prod.ext ?_ rfl,
      Operation.leaves_error _ (h.update hstale) _⟩
    simp only [viewable, if_neg hsize]
    rfl

end

/-! ## One turn -/

/-- All ranks perform an operation, which ends in the same way on all of them, apart from views that the
storage of a rank does not allow. -/
theorem Operation.completes (op : Operation) (hspans : coloring.Spans n)
    (h : Consistent coloring n status region)
    (hroom : op.info.indexSpace < coloring.indexSpaces →
      Roomy n (coloring.plan op.info.indexSpace) op.info) :
    ∃ outcome status' region', CommState.Completes n (fun r => op.perform r) (holding coloring region)
        (fun r => op.outcomeOn r outcome) (holding coloring region') ∧
      op.Leaves coloring n outcome status' region' := by
  by_cases hspace : op.info.indexSpace < coloring.indexSpaces
  · have hroom := hroom hspace
    by_cases hadmits : (status op.info.indexSpace).Admits op.info
    · cases op with
      | access info pack =>
        obtain ⟨needed, status', region', haccess, hleaves⟩ :=
          access_completes hspans hspace h hroom hadmits pack
        refine ⟨.ok (some needed), status', region', ?_, hleaves⟩
        exact haccess.bind (.of_silent fun r _ => .pure r _ _)
      | ghostCopy info =>
        obtain ⟨region', hcopy, hafter⟩ := ghostCopy_completes hspans hspace h hroom hadmits
        have hset := (status info.indexSpace).set_self info true
        refine ⟨.ok none, _, _, hcopy.bind (.of_silent fun r _ => .pure r none _), h.update hafter,
          nofun, fun _ => ⟨hspace, true, update_set_self .., nofun⟩, fun _ _ r hr => ?_⟩
        simp only [Operation.info, Function.update_self]
        exact hafter.filled info.field _ hset rfl r hr
      | fieldMut info elementSize aligned =>
        exact fieldMut_completes hspans hspace h hroom hadmits elementSize aligned
    · obtain ⟨st, hst⟩ := not_forall.mp hadmits
      obtain ⟨hst, hsize⟩ := Classical.not_imp.mp hst
      have hrejects := op.rejects_size hspans hspace h hroom rfl hst hsize
      exact ⟨_, status, region, (op.outcomeOn_error _).symm ▸ hrejects, op.leaves_error h _⟩
  · exact ⟨_, status, region, (op.outcomeOn_error _).symm ▸ op.rejects_space hspace, op.leaves_error h _⟩

/-- A rank overwrites a field that has a buffer. -/
theorem overwrite_performs (hspace : info.indexSpace < coloring.indexSpaces) {rank : Nat}
    {st : FieldStatus} (hadmits : (region info.indexSpace rank).Admits info)
    (hst : (region info.indexSpace rank).status info.field = some st)
    (hmod : ((region info.indexSpace rank).content info.field).length % info.typeSize = 0)
    (f : Bytes → Bytes) {region' : Nat → Region}
    (hregion' : region' rank = (region info.indexSpace rank).setBytes info.field
      (f ((region info.indexSpace rank).content info.field))) :
    Program.Performs rank (Prod.snd <$> (overwrite info f).run.run (holding coloring region rank)) []
      (.done (holding coloring (Function.update region info.indexSpace region') rank)) := by
  have htask := @runTask_yields info Unit (region info.indexSpace rank) hadmits _ hst hmod
    (modify fun view => { view with bytes := f view.bytes }) () _ rfl rank
  rw [← hregion'] at htask
  exact Program.Performs.bind (onRegion_performs hspace htask) _

/-- All ranks that may overwrite a field whose ghosts are stale do so, each with bytes of its own. -/
theorem overwrite_completes (hspans : coloring.Spans n)
    (hspace : info.indexSpace < coloring.indexSpaces) (h : Consistent coloring n status region)
    (hroom : Roomy n (coloring.plan info.indexSpace) info)
    (hst : status info.indexSpace info.field = some ⟨info.typeSize, false⟩) (writes : Nat → Bool)
    {f : Nat → Bytes → Bytes} (hlength : ∀ r < n, ∀ bytes, (f r bytes).length = bytes.length) :
    ∃ region', Completes n (fun r => if writes r then
          Prod.snd <$> (overwrite info (f r)).run.run (holding coloring region r)
        else pure (holding coloring region r)) (holding coloring region') ∧
      Consistent coloring n status region' := by
  have hcoherent := h info.indexSpace hspace
  have hcontent := fun r (hr : r < n) => hcoherent.length_eq r hr _ _ hst
  have hstatus := fun r (hr : r < n) => (hcoherent.status_apply hr info.field).trans hst
  let data : Nat → Bytes := fun r =>
    if writes r then f r ((region info.indexSpace r).content info.field)
    else (region info.indexSpace r).content info.field
  have hafter : Coherent n info.indexSpace (coloring.plan info.indexSpace) (status info.indexSpace)
      fun r => (region info.indexSpace r).setBytes info.field (data r) := by
    refine hcoherent.setBytes (hspans.concert hspace) hst (fun r hr => ?_)
      fun hvalid => absurd hvalid Bool.false_ne_true
    rw [← hcontent r hr]
    show (if writes r then _ else _ : Bytes).length = _
    split
    · exact hlength r hr _
    · rfl
  have hconsistent := h.update hafter
  rw [Function.update_eq_self] at hconsistent
  refine ⟨_, Completes.of_silent fun r hr => ?_, hconsistent⟩
  cases hwrites : writes r with
  | true =>
    have hdata : data r = f r ((region info.indexSpace r).content info.field) := if_pos hwrites
    refine overwrite_performs hspace (hcoherent.admits hr rfl hroom (Statuses.admits_of_eq hst))
      (hstatus r hr) ?_ (f r) (by rw [hdata])
    rw [hcontent r hr]
    exact Nat.mul_mod_left _ _
  | false =>
    have hdata : data r = (region info.indexSpace r).content info.field :=
      if_neg (hwrites ▸ Bool.false_ne_true)
    rw [holding_update_self (by rw [hdata, Region.setBytes_content (hstatus r hr)])]
    exact .refl _

/-- All ranks overwrite a field after an operation that lets them. -/
theorem Turn.finish_completes (turn : Turn) (hspans : coloring.Spans n)
    {outcome : Except Failure (Option Bool)}
    (h : turn.operation.Leaves coloring n outcome status region)
    (hroom : turn.operation.info.indexSpace < coloring.indexSpaces →
      Roomy n (coloring.plan turn.operation.info.indexSpace) turn.operation.info)
    (hwrite : ∀ r < n, ∀ bytes, (turn.write r bytes).length = bytes.length) :
    ∃ region', Completes n
        (fun r => turn.finish r (turn.operation.outcomeOn r outcome) (holding coloring region r))
        (holding coloring region') ∧ Consistent coloring n status region' := by
  by_cases hwrites : (turn.operation.allowsWrite && outcome.isOk) = true
  · obtain ⟨hallows, hok⟩ := Bool.and_eq_true_iff.mp hwrites
    obtain ⟨hspace, valid, hst, hstale⟩ := h.accepted hok
    rw [hstale hallows] at hst
    exact overwrite_completes hspans hspace h.consistent (hroom hspace) hst
      (fun r => turn.operation.allowsWrite && (turn.operation.outcomeOn r outcome).isOk) hwrite
  · refine ⟨region, Completes.of_silent fun r _ => ?_, h.consistent⟩
    rw [Turn.finish, if_neg fun hboth => hwrites ?_]
    · exact .refl _
    · rw [Bool.and_eq_true_iff] at hboth ⊢
      exact ⟨hboth.1, turn.operation.isOk_of_outcomeOn hboth.2⟩

/-! ## All turns -/

/-- All ranks take turns, and every operation ends in the same way on all of them, apart from views that
the storage of a rank does not allow. -/
theorem follow_completes {turns : List Turn} (hspans : coloring.Spans n)
    (h : Consistent coloring n status region)
    (hroom : ∀ turn ∈ turns, turn.operation.info.indexSpace < coloring.indexSpaces →
      Roomy n (coloring.plan turn.operation.info.indexSpace) turn.operation.info)
    (hwrite : ∀ turn ∈ turns, ∀ r < n, ∀ bytes, (turn.write r bytes).length = bytes.length) :
    ∃ (outcome : Nat → Nat → Except Failure (Option Bool)) (region' : Nat → Nat → Nat → Region),
      Completes n (fun r => follow r turns (holding coloring region r))
        (fun r => (List.range turns.length).map fun i => (outcome i r, holding coloring (region' i) r)) ∧
      ∀ i (hi : i < turns.length), ∃ common status',
        outcome i = (fun r => turns[i].operation.outcomeOn r common) ∧
        turns[i].operation.Leaves coloring n common status' (region' i) := by
  induction turns generalizing status region with
  | nil =>
    refine ⟨fun _ _ => .ok none, fun _ => region, .done n _, fun i hi => ?_⟩
    exact absurd hi (Nat.not_lt_zero i)
  | cons turn turns ih =>
    have hroomy := hroom turn (by simp)
    obtain ⟨common, next, left, hperform, hleaves⟩ := turn.operation.completes hspans h hroomy
    obtain ⟨written, hfinish, hconsistent⟩ :=
      turn.finish_completes hspans hleaves hroomy (hwrite turn (by simp))
    obtain ⟨outcome, region', hfollow, hrest⟩ := ih hconsistent
      (fun later hlater => hroom later (by simp [hlater]))
      fun later hlater => hwrite later (by simp [hlater])
    refine ⟨fun i => Nat.casesOn i (fun r => turn.operation.outcomeOn r common) outcome,
      fun i => Nat.casesOn i left region', ?_, fun i hi => ?_⟩
    · simp only [List.length_cons, List.range_succ_eq_map, List.map_cons, List.map_map]
      exact Completes.bind hperform (hfinish.bind (hfollow.bind (.done n _)))
    · cases i with
      | zero => exact ⟨common, next, rfl, hleaves⟩
      | succ i => exact hrest i (Nat.lt_of_succ_lt_succ hi)

/-! ## Coherence -/

/-- The ranks of a group are in step after an operation. They have come to one outcome, and all of them
have the same flags. If the operation was to bring ghosts up to date and did not fail, every ghost slot of
the field has the bytes that its owner has at the same point. -/
structure InStep (coloring : Coloring) (op : Operation) (outcome : Nat → Except Failure (Option Bool))
    (state : Nat → Topology) : Prop where
  agreed : ∃ common, (∀ cause, common ≠ .error (.fault cause)) ∧
    ∀ r < coloring.colors, outcome r = op.outcomeOn r common
  flags_eq : ∀ field, ∀ r < coloring.colors, ∀ s < coloring.colors,
    (state r).regions.map (·.ghostsValid field) = (state s).regions.map (·.ghostsValid field)
  follows : ∀ r < coloring.colors, (outcome r).isOk = true → op.refreshes = true →
    ∃ data : Nat → Bytes, ∀ s < coloring.colors, ∃ region plan,
      (state s).region op.info.indexSpace = .ok region ∧ region.bytes op.info = .ok (data s) ∧
      CopyPlan.ofColoring coloring op.info.indexSpace s = .ok plan ∧
      plan.Filled op.info.typeSize data (data s) ∧
      (coloring.spec.Representable → ∃ d parts me,
        coloring.spec.indexSpaces[op.info.indexSpace]? = some d ∧
        coloring.parts[op.info.indexSpace]? = some parts ∧ parts[s]? = some me ∧
        Ghost.Follows d parts op.info.typeSize data me (data s))

theorem Consistent.map_ghostsValid (h : Consistent coloring n status region) {r : Nat} (hr : r < n)
    (field : Nat) : (holding coloring region r).regions.map (·.ghostsValid field) =
      (List.range coloring.indexSpaces).map fun s => (status s).ghostsValid field := by
  rw [holding, List.map_map]
  refine List.map_congr_left fun s hs => ?_
  show (region s r).ghostsValid field = _
  rw [Region.ghostsValid_eq, (h s (List.mem_range.mp hs)).status_eq r hr]

theorem Operation.Leaves.inStep {op : Operation} {common : Except Failure (Option Bool)}
    (h : op.Leaves coloring n common status region) (hspans : coloring.Spans n) :
    InStep coloring op (fun r => op.outcomeOn r common) (holding coloring region) where
  agreed := ⟨common, h.reported, fun _ _ => rfl⟩
  flags_eq field r hr s hs := by
    rw [hspans.colors_eq] at hr hs
    rw [h.consistent.map_ghostsValid hr, h.consistent.map_ghostsValid hs]
  follows _ _ hok hrefreshes := by
    have hok := op.isOk_of_outcomeOn hok
    obtain ⟨hspace, valid, hst, -⟩ := h.accepted hok
    have hcoherent := h.consistent _ hspace
    refine ⟨fun r => (region op.info.indexSpace r).content op.info.field, fun s hs => ?_⟩
    rw [hspans.colors_eq] at hs
    have hbytes := Region.bytes_eq_content (hcoherent.indexSpace_eq hs rfl)
      ((hcoherent.status_apply hs _).trans hst)
    refine ⟨_, _, region_holding hspace, hbytes, (hspans.plan_eq_ok hspace hs).1,
      h.filled hok hrefreshes s hs, fun hrep => ?_⟩
    obtain ⟨d, parts, hhas⟩ := Coloring.exists_hasSpace hrep hspans.derived hspace
    have hcolor : s < parts.length := hhas.colors_eq.trans hspans.colors_eq ▸ hs
    have hplan := Except.ok.inj
      ((hspans.plan_eq_ok hspace hs).1.symm.trans (CopyPlan.ofColoring_eq_plansOf hhas hcolor))
    have hfilled := h.filled hok hrefreshes s hs
    rw [hplan] at hfilled
    exact ⟨d, parts, parts[s], hhas.definition, hhas.records, List.getElem?_eq_getElem hcolor,
      hfilled.follows hhas hcolor⟩

end

/-- A topology can allocate a field, if it has an index space for it. -/
def HasRoom (t : Topology) (info : FieldInfo) : Prop :=
  ∀ region, t.region info.indexSpace = .ok region → region.HasRoom info

/-- The regions of a rank that has built its topology are as long as its plans ask. -/
theorem bound_eq_holding (coloring : Coloring) :
    bound coloring = holding coloring fun s rank => .new s rank (coloring.plan s rank).slots := rfl

/-- A rank can allocate a field if it has room for the slots of its plan, or no such index space. -/
theorem hasRoom_bound_iff {coloring : Coloring} {rank : Nat} {info : FieldInfo} :
    (bound coloring rank).HasRoom info ↔ (info.indexSpace < coloring.indexSpaces →
      Region.chunked ((coloring.plan info.indexSpace rank).slots * info.typeSize) ≤ Word.bufferLimit) := by
  rw [bound_eq_holding]
  constructor
  · intro h hspace
    exact h (.new info.indexSpace rank (coloring.plan info.indexSpace rank).slots) (region_holding hspace)
  · intro h region hregion
    by_cases hspace : info.indexSpace < coloring.indexSpaces
    · cases hregion.symm.trans (region_holding hspace)
      exact h hspace
    · rw [Topology.region, ofSpace, checkSpace_holding, if_neg hspace] at hregion
      cases hregion

theorem operate_completes {mesh : Specialization} {n : Nat} {coloring : Coloring}
    (hspans : coloring.Spans n)
    (hnew : Comm.Completes n (fun rank => new ⟨rank, n⟩ mesh) (bound coloring)) {turns : List Turn}
    (hroom : ∀ turn ∈ turns, ∀ rank < n, (bound coloring rank).HasRoom turn.operation.info)
    (hwrite : ∀ turn ∈ turns, ∀ rank < n, ∀ bytes, (turn.write rank bytes).length = bytes.length) :
    ∃ (outcome : Nat → Nat → Except Failure (Option Bool)) (state : Nat → Nat → Topology),
      Comm.Completes n (fun rank => operate mesh turns ⟨rank, n⟩)
        (fun rank => (List.range turns.length).map fun i => (outcome i rank, state i rank)) ∧
      ∀ i (hi : i < turns.length), InStep coloring turns[i].operation (outcome i) (state i) := by
  have hconsistent : Consistent coloring n (fun _ _ => none)
      fun s rank => .new s rank (coloring.plan s rank).slots :=
    fun s _ => coherent_new n s (coloring.plan s)
  obtain ⟨outcome, region, hfollow, hleaves⟩ := follow_completes hspans hconsistent
    (fun turn hturn hspace rank hrank => hasRoom_bound_iff.mp (hroom turn hturn rank hrank) hspace) hwrite
  refine ⟨outcome, fun i => holding coloring (region i), hnew.bind (.lift hfollow), fun i hi => ?_⟩
  obtain ⟨common, status, houtcome, hleft⟩ := hleaves i hi
  exact houtcome ▸ hleft.inStep hspans

/-- However the ranks of a group that was built interleave, all of them come to the same outcomes of the
operations that they perform, whatever they write in between, apart from views that the storage of a rank
does not allow. So no rank waits for a copy that another skips, and ghosts that were to be brought up to
date are as their owners are at that point. -/
theorem operate_settles {mesh : Specialization} {n : Nat} {members : List Member}
    (hmembers : Member.world n = .ok members) (hn : 0 < n)
    (hsendable : ∀ spec, mesh.color n = .ok spec → Sendable n spec)
    {built : Group (Except Failure Topology)} {t : Nat → Topology}
    (hreaches : (Group.start (members.map fun me => (new me mesh).run)).Reaches built)
    (hbuilt : built.results? = some ((List.range n).map fun rank => .ok (t rank)))
    {turns : List Turn} (hroom : ∀ turn ∈ turns, ∀ rank < n, (t rank).HasRoom turn.operation.info)
    (hwrite : ∀ turn ∈ turns, ∀ rank < n, ∀ bytes, (turn.write rank bytes).length = bytes.length) :
    ∃ coloring, mesh.color n = .ok coloring.spec ∧ Coloring.ofSpec coloring.spec = .ok coloring ∧
      coloring.colors = n ∧
      ∃ (outcome : Nat → Nat → Except Failure (Option Bool)) (state : Nat → Nat → Topology),
        (Group.start (members.map fun me => (operate mesh turns me).run)).Settles
          ((List.range n).map fun rank =>
            .ok ((List.range turns.length).map fun i => (outcome i rank, state i rank))) ∧
        ∀ i (hi : i < turns.length), InStep coloring turns[i].operation (outcome i) (state i) := by
  obtain ⟨-, rfl⟩ := Member.world_eq_ok_iff.mp hmembers
  rw [Member.all, List.map_map] at hreaches
  obtain ⟨coloring, hmesh, hspans, hnew, hbound⟩ :=
    exists_spans_of_reaches hn hsendable hreaches hbuilt
  obtain ⟨outcome, state, hcompletes, hinStep⟩ := operate_completes hspans hnew
    (fun turn hturn rank hrank => hbound rank hrank ▸ hroom turn hturn rank hrank) hwrite
  refine ⟨coloring, hmesh, hspans.derived, hspans.colors_eq, outcome, state, ?_, hinStep⟩
  rw [Member.all, List.map_map]
  exact hcompletes.settles

/-- Two colors on a ring write a field, read it with fresh ghosts, and update it. -/
theorem operate_settles_on_ring :
    let spec : ColoringSpec := ⟨[⟨[2], [4], [1], [0], [true]⟩]⟩
    let mesh := (ExplicitMesh.mk spec).specialization
    let fill : Nat → Bytes → Bytes := fun rank bytes => bytes.map fun _ => UInt8.ofNat (rank + 1)
    let turns : List Turn :=
      [⟨.fieldMut ⟨7, 0, 1⟩ 1, fill⟩, ⟨.access ⟨7, 0, 1⟩ (.ofMode .ro), fill⟩,
        ⟨.access ⟨7, 0, 1⟩ (.ofMode .rw), fill⟩, ⟨.ghostCopy ⟨7, 0, 1⟩, fill⟩]
    Member.world 2 = .ok (Member.all 2) ∧ 0 < 2 ∧
      (∀ spec, mesh.color 2 = .ok spec → Sendable 2 spec) ∧
      ∃ (built : Group (Except Failure Topology)) (t : Nat → Topology),
        (Group.start ((Member.all 2).map fun me => (new me mesh).run)).Reaches built ∧
        built.results? = some ((List.range 2).map fun rank => .ok (t rank)) ∧
        (∀ turn ∈ turns, ∀ rank < 2, (t rank).HasRoom turn.operation.info) ∧
        (∀ turn ∈ turns, ∀ rank < 2, ∀ bytes, (turn.write rank bytes).length = bytes.length) ∧
        ∃ coloring, mesh.color 2 = .ok coloring.spec ∧ Coloring.ofSpec coloring.spec = .ok coloring ∧
          coloring.colors = 2 ∧
          ∃ (outcome : Nat → Nat → Except Failure (Option Bool)) (state : Nat → Nat → Topology),
            (Group.start ((Member.all 2).map fun me => (operate mesh turns me).run)).Settles
              ((List.range 2).map fun rank =>
                .ok ((List.range turns.length).map fun i => (outcome i rank, state i rank))) ∧
            ∀ i (hi : i < turns.length),
              InStep coloring turns[i].operation (outcome i) (state i) := by
  intro spec mesh fill turns
  have hfeasible : Feasible 2 (.ok spec) :=
    feasible_of_spec (by decide) (by decide) rfl rfl (by decide)
  obtain ⟨coloring, hspec, hspans, hnew⟩ := @Feasible.exists_bound mesh _ _ hfeasible rfl _ rfl rfl
  have hsendable : ∀ spec, mesh.color 2 = .ok spec → Sendable 2 spec := by
    rintro _ ⟨⟩
    obtain ⟨_, heq, -, hsendable⟩ := hfeasible.exists_sendable rfl
    exact heq ▸ hsendable
  have hturns : ∀ turn ∈ turns, turn.operation.info = ⟨7, 0, 1⟩ ∧ turn.write = fill := by
    intro turn hturn
    simp only [turns, List.mem_cons, List.not_mem_nil, or_false] at hturn
    rcases hturn with rfl | rfl | rfl | rfl
    all_goals exact ⟨rfl, rfl⟩
  have hroom : ∀ turn ∈ turns, ∀ rank < 2, (bound coloring rank).HasRoom turn.operation.info := by
    have hallocates : ∀ rank < 2, (bound coloring rank).HasRoom ⟨7, 0, 1⟩ := by
      have hderived := hspans.derived
      rw [hspec] at hderived
      cases hderived
      simp only [hasRoom_bound_iff]
      decide
    exact fun turn hturn => (hturns turn hturn).1 ▸ hallocates
  have hwrite : ∀ turn ∈ turns, ∀ rank < 2, ∀ bytes,
      (turn.write rank bytes).length = bytes.length := by
    intro turn hturn rank _ bytes
    rw [(hturns turn hturn).2]
    exact List.length_map _
  obtain ⟨built, hreaches, hbuilt⟩ := hnew.settles.exists_reaches
  have hreaches : (Group.start ((Member.all 2).map fun me => (new me mesh).run)).Reaches built := hreaches
  exact ⟨rfl, Nat.two_pos, hsendable, built, bound coloring, hreaches, hbuilt, hroom, hwrite,
    operate_settles rfl Nat.two_pos hsendable hreaches hbuilt hroom hwrite⟩

/-- On a row of three colors with wide padding, the outer two cannot tell how long the storage of a field
is, and the inner one goes on. -/
theorem follow_padded {coloring : Coloring}
    (hof : Coloring.ofSpec ⟨[⟨[3], [3], [0], [2 ^ 61], [false]⟩]⟩ = .ok coloring) :
    ∀ rank < 3, ∃ t, Program.Performs rank
      (follow rank [⟨.access ⟨0, 0, 8⟩ (.ofMode .wo), fun _ bytes => bytes⟩] (bound coloring rank)) []
      (.done [(if rank = 1 then .ok (some false) else .error (.fault (.overflow .multiply)), t)]) := by
  cases hof
  intro rank hrank
  obtain rfl | rfl | rfl : rank = 0 ∨ rank = 1 ∨ rank = 2 := by omega
  · exact ⟨_, .refl _⟩
  · exact ⟨_, .silent (.log ..) (.refl _)⟩
  · exact ⟨_, .refl _⟩

/-- On a ring of two colors, the storage of one does not meet the alignment of a type, and the other gets
its view. -/
theorem follow_misaligned {coloring : Coloring}
    (hof : Coloring.ofSpec ⟨[⟨[2], [2], [1], [0], [true]⟩]⟩ = .ok coloring) :
    ∀ rank < 2, ∃ t, Program.Performs rank
      (follow rank [⟨.fieldMut ⟨0, 0, 32⟩ 32 (· ≠ 0), fun _ bytes => bytes⟩] (bound coloring rank)) []
      (.done [(if rank = 0 then .error (.reported (.invariant (.misalignedElements 0))) else .ok none,
        t)]) := by
  cases hof
  intro rank hrank
  obtain rfl | rfl : rank = 0 ∨ rank = 1 := by omega
  · exact ⟨_, .silent (.log ..) (.refl _)⟩
  · exact ⟨_, .silent (.log ..) (.refl _)⟩

/-- A field fits the storage of one color and not that of the others, whose padding is too wide. Where it
fits all of them, the storage of one need not meet the alignment of a type. -/
theorem operate_settles_apart :
    let padded : ColoringSpec := ⟨[⟨[3], [3], [0], [2 ^ 61], [false]⟩]⟩
    let ring : ColoringSpec := ⟨[⟨[2], [2], [1], [0], [true]⟩]⟩
    let build : ColoringSpec → Member → Program (Except Failure Topology) := fun spec me =>
      (new me (ExplicitMesh.mk spec).specialization).run
    let perform : ColoringSpec → Operation → Member →
        Program (Except Failure (List (Except Failure (Option Bool) × Topology))) := fun spec op me =>
      (operate (ExplicitMesh.mk spec).specialization [⟨op, fun _ bytes => bytes⟩] me).run
    (padded.Representable ∧ ∃ t state : Nat → Topology,
      (Group.start ((Member.all 3).map (build padded))).Settles ((List.range 3).map fun r => .ok (t r)) ∧
      (Group.start ((Member.all 3).map (perform padded (.access ⟨0, 0, 8⟩ (.ofMode .wo))))).Settles
        [.ok [(.error (.fault (.overflow .multiply)), state 0)], .ok [(.ok (some false), state 1)],
          .ok [(.error (.fault (.overflow .multiply)), state 2)]]) ∧
    (ring.Representable ∧ ∃ t state : Nat → Topology,
      (Group.start ((Member.all 2).map (build ring))).Settles ((List.range 2).map fun r => .ok (t r)) ∧
      (∀ rank < 2, (t rank).HasRoom ⟨0, 0, 32⟩) ∧
      (Group.start ((Member.all 2).map (perform ring (.fieldMut ⟨0, 0, 32⟩ 32 (· ≠ 0))))).Settles
        [.ok [(.error (.reported (.invariant (.misalignedElements 0))), state 0)],
          .ok [(.ok none, state 1)]]) := by
  intro padded ring build perform
  have hpadded : padded.Representable := by decide
  have hring : ring.Representable := by decide
  refine ⟨⟨hpadded, ?_⟩, hring, ?_⟩
  · have hfeasible : Feasible 3 (.ok padded) := feasible_of_spec hpadded (by decide) rfl rfl (by decide)
    obtain ⟨coloring, hspec, hspans, hnew⟩ :=
      @Feasible.exists_bound (ExplicitMesh.mk padded).specialization _ _ hfeasible rfl _ rfl rfl
    have hfollow := follow_padded (hspec ▸ hspans.derived)
    choose! state hstate using hfollow
    have hoperate : Comm.Completes 3 (fun rank => operate (ExplicitMesh.mk padded).specialization
        [⟨.access ⟨0, 0, 8⟩ (.ofMode .wo), fun _ bytes => bytes⟩] ⟨rank, 3⟩) _ :=
      hnew.bind (.lift (.of_silent hstate))
    exact ⟨bound coloring, state, hnew.settles, hoperate.settles⟩
  · have hfeasible : Feasible 2 (.ok ring) := feasible_of_spec hring (by decide) rfl rfl (by decide)
    obtain ⟨coloring, hspec, hspans, hnew⟩ :=
      @Feasible.exists_bound (ExplicitMesh.mk ring).specialization _ _ hfeasible rfl _ rfl rfl
    have hroom : ∀ rank < 2, (bound coloring rank).HasRoom ⟨0, 0, 32⟩ := by
      have hderived := hspans.derived
      rw [hspec] at hderived
      cases hderived
      simp only [hasRoom_bound_iff]
      decide
    have hfollow := follow_misaligned (hspec ▸ hspans.derived)
    choose! state hstate using hfollow
    have hoperate : Comm.Completes 2 (fun rank => operate (ExplicitMesh.mk ring).specialization
        [⟨.fieldMut ⟨0, 0, 32⟩ 32 (· ≠ 0), fun _ bytes => bytes⟩] ⟨rank, 2⟩) _ :=
      hnew.bind (.lift (.of_silent hstate))
    exact ⟨bound coloring, state, hnew.settles, hroom, hoperate.settles⟩

end Topology

end HaloMesh
