-- SUMMARY: Over any transport a flag is up exactly if ghosts were copied and nothing has outdated them since.
import HaloMesh.Proofs.Comm.Replies
import HaloMesh.Proofs.Topology.Coherence

/-!
# Flags of fields

The flag of a field says whether its ghosts count as current. Whatever the transport does, a flag is up
after an operation exactly if one of the operations so far copied the ghosts of the field and returned,
and neither it nor a later one outdated them. A copy that fails is not among these: it leaves the flag as
it was, although some of the ghosts may be new and others not.
-/

namespace HaloMesh

/-! ## Flags of a region -/

namespace Region

variable {region region' : Region} {info : FieldInfo} {v : Nat → Bool}

theorem ghostsValid_setBytes (region : Region) (field : Nat) (data : Bytes) :
    (region.setBytes field data).ghostsValid = region.ghostsValid := by
  funext other
  rw [ghostsValid_eq, ghostsValid_eq, status_setBytes]

theorem ghostsValid_setGhostsValid {field : Nat} {valid : Bool}
    (h : valid = true → region.isAllocated field) :
    (region.setGhostsValid field valid).ghostsValid = Function.update region.ghostsValid field valid := by
  funext other
  rw [ghostsValid, buffer?_setGhostsValid]
  by_cases hother : other = field
  · subst hother
    rw [if_pos rfl, Function.update_self]
    cases hbuffer : region.buffer? other with
    | some buffer => rfl
    | none =>
      rw [isAllocated, hbuffer] at h
      exact (Bool.eq_false_iff.mpr fun hvalid => Bool.false_ne_true (h hvalid)).symm
  · rw [if_neg hother, Function.update_of_ne hother]
    rfl

/-- The field has a buffer for its elements. -/
structure Stores (region : Region) (info : FieldInfo) : Prop where
  space_eq : info.indexSpace = region.indexSpace
  size : ∃ size, Word.mul region.length info.typeSize = .ok size
  buffer : ∃ buffer, region.buffer? info.field = some buffer ∧ buffer.typeSize = info.typeSize

theorem Stores.isAllocated (h : region.Stores info) : region.isAllocated info.field := by
  obtain ⟨buffer, hbuffer, -⟩ := h.buffer
  rw [Region.isAllocated, hbuffer]
  rfl

theorem Stores.allocate_eq_ok (h : region.Stores info) : region.allocate info = .ok region := by
  obtain ⟨size, hsize⟩ := h.size
  obtain ⟨buffer, hbuffer, htypeSize⟩ := h.buffer
  rw [allocate, checkSpace_eq_ok h.space_eq, Checked.liftM_reported_ok, Checked.ok_bind, hsize,
    Checked.liftM_ok, Checked.ok_bind]
  simp only [hbuffer, if_pos htypeSize]
  rfl

theorem Stores.setGhostsValid (h : region.Stores info) (field : Nat) (valid : Bool) :
    (region.setGhostsValid field valid).Stores info := by
  have hshape := sameShape_setGhostsValid region field valid
  obtain ⟨buffer, hbuffer, htypeSize⟩ := h.buffer
  refine ⟨h.space_eq.trans hshape.indexSpace_eq.symm, hshape.length_eq ▸ h.size, ?_⟩
  rw [buffer?_setGhostsValid, hbuffer]
  split
  · exact ⟨_, rfl, htypeSize⟩
  · exact ⟨_, rfl, htypeSize⟩

/-- A field that is given its buffer keeps all flags, a new one being down. -/
theorem stores_of_allocate (h : region.allocate info = .ok region') :
    region'.Stores info ∧ region'.ghostsValid = region.ghostsValid := by
  simp only [allocate, Checked.bind_eq_ok_iff, Checked.liftM_reported_eq_ok_iff,
    Checked.liftM_eq_ok_iff] at h
  obtain ⟨_, hspace, size, hsize, h⟩ := h
  have hspace := indexSpace_eq_of_checkSpace hspace
  cases hbuffer : region.buffer? info.field with
  | some buffer =>
    simp only [hbuffer] at h
    split at h
    · rename_i htypeSize
      cases h
      exact ⟨⟨hspace, ⟨size, hsize⟩, buffer, hbuffer, htypeSize⟩, rfl⟩
    · cases h
  | none =>
    simp only [hbuffer, Checked.bind_eq_ok_iff, Checked.liftM_eq_ok_iff] at h
    obtain ⟨fresh, hfresh, h⟩ := h
    simp only [zeroBuffer, Checked.bind_eq_ok_iff] at hfresh
    obtain ⟨-, -, hfresh⟩ := hfresh
    cases hfresh
    cases h
    have hbuffers := region.buffer?_setBuffer info.field
    refine ⟨⟨hspace, ⟨size, hsize⟩, _, (hbuffers _ _).trans (if_pos rfl), rfl⟩, funext fun other => ?_⟩
    rw [ghostsValid, ghostsValid, hbuffers]
    by_cases hother : other = info.field
    · rw [if_pos hother, hother, hbuffer]
    · rw [if_neg hother]

theorem Stores.setBytes (h : region.Stores info) (field : Nat) (data : Bytes) :
    (region.setBytes field data).Stores info := by
  have hshape := sameShape_setBytes region field data
  obtain ⟨buffer, hbuffer, htypeSize⟩ := h.buffer
  refine ⟨h.space_eq.trans hshape.indexSpace_eq.symm, hshape.length_eq ▸ h.size, ?_⟩
  rw [buffer?_setBytes, hbuffer]
  split
  · exact ⟨_, rfl, htypeSize⟩
  · exact ⟨_, rfl, htypeSize⟩

theorem Stores.bytes_eq_ok (h : region.Stores info) : ∃ data, region.bytes info = .ok data := by
  obtain ⟨buffer, hbuffer, -⟩ := h.buffer
  refine ⟨buffer.bytes, ?_⟩
  rw [bytes, checkSpace_eq_ok h.space_eq, Checked.ok_bind, hbuffer]
  rfl

/-- The failures of a view of a field that has a buffer for its elements. -/
def viewFailures (info : FieldInfo) (elementSize : Nat) : List Failure :=
  [.reported (.fieldTypeSize info.field info.typeSize elementSize),
    .reported (.invariant (.misalignedElements info.field)),
    .reported (.invariant (.unevenElements info.field))]

/-- Whether a call for a view of a field came as far as the buffer. -/
def reached {α : Type} (info : FieldInfo) (elementSize : Nat) : Except Failure α → Bool
  | .ok _ => true
  | .error failure => (viewFailures info elementSize).contains failure

theorem mem_viewFailures_of_checkElement {element : ElementType} {error : MeshError}
    (h : checkElement info element = .error error) : .reported error ∈ viewFailures info element.size := by
  rw [checkElement] at h
  split at h
  · cases h
  · cases h
    exact List.mem_cons_self

theorem mem_viewFailures_of_castTo {element : ElementType} {data : Bytes} {error : MeshError}
    (h : castTo info element data = .error error) : .reported error ∈ viewFailures info element.size := by
  rw [castTo] at h
  split at h
  · cases h
    exact List.mem_cons_of_mem _ List.mem_cons_self
  · split at h
    · cases h
    · cases h
      exact List.mem_cons_of_mem _ (List.mem_cons_of_mem _ List.mem_cons_self)

/-- A call for a field that gets no buffer fails otherwise than one whose view fails. -/
theorem reached_of_allocate {α : Type} {failure : Failure} (h : region.allocate info = .error failure)
    (elementSize : Nat) : reached info elementSize (.error failure : Except Failure α) = false := by
  rw [allocate, checkSpace] at h
  by_cases hspace : info.indexSpace = region.indexSpace
  · rw [if_pos hspace, Checked.liftM_reported_ok, Checked.ok_bind] at h
    cases hsize : Word.mul region.length info.typeSize with
    | error cause =>
      rw [hsize] at h
      cases h
      simp [reached, viewFailures]
    | ok size =>
      rw [hsize, Checked.liftM_ok, Checked.ok_bind] at h
      cases hbuffer : region.buffer? info.field with
      | some buffer =>
        simp only [hbuffer] at h
        split at h
        · cases h
        · rename_i htypeSize
          cases h
          simp [reached, viewFailures, htypeSize]
      | none =>
        simp only [hbuffer] at h
        cases hfresh : zeroBuffer size info.typeSize with
        | ok fresh =>
          rw [hfresh] at h
          cases h
        | error cause =>
          rw [hfresh] at h
          cases h
          simp [reached, viewFailures]
  · rw [if_neg hspace] at h
    cases h
    simp [reached, viewFailures]

end Region

/-! ## What a rank does with a region -/

section
variable {info : FieldInfo} {v : Nat → Bool}

/-- What comes of giving a field a buffer. -/
theorem ensure_from (region : Region) (info : FieldInfo) :
    CommState.Always (· = region) (Region.ensure info) fun result after =>
      (∃ region', region.allocate info = .ok region' ∧ result = .ok () ∧ after = region') ∨
        ∃ failure, region.allocate info = .error failure ∧ result = .error failure ∧ after = region := by
  refine .get_bind fun before hbefore => ?_
  obtain rfl := hbefore.symm
  have hset : CommState.Always (· = region) (do MonadStateOf.set (← liftM (region.allocate info)) :
      CommState Region PUnit) fun result after =>
        (∃ region', region.allocate info = .ok region' ∧ result = .ok () ∧ after = region') ∨
          ∃ failure, region.allocate info = .error failure ∧ result = .error failure ∧
            after = region := by
    refine .result_bind (fun region' hallocate => ?_) fun failure hallocate after hafter => ?_
    · exact .set _ (.inl ⟨region', hallocate, rfl, rfl⟩)
    · exact .inr ⟨failure, hallocate, rfl, hafter⟩
  cases region.allocationText? info with
  | none => exact hset
  | some text => exact .lift_bind fun _ => hset

/-- A field that may get a buffer keeps all flags. -/
theorem ensure_flags (info : FieldInfo) (v : Nat → Bool) :
    CommState.Always (·.ghostsValid = v) (Region.ensure info) fun result region =>
      region.ghostsValid = v ∧ (result = .ok () → region.Stores info) ∧
        ∀ failure, result = .error failure → ∀ elementSize,
          Region.reached info elementSize (.error failure : Except Failure Unit) = false := by
  intro transport h region hregion
  rcases ensure_from region info transport h region rfl with
    ⟨region', hallocate, hresult, rfl⟩ | ⟨failure, hallocate, hresult, hafter⟩
  · obtain ⟨hstores, hflags⟩ := Region.stores_of_allocate hallocate
    refine ⟨hflags.trans hregion, fun _ => hstores, fun failure hfailure => ?_⟩
    cases hresult.symm.trans hfailure
  · refine ⟨(congrArg Region.ghostsValid hafter).trans hregion, fun hok => ?_, fun other hother => ?_⟩
    · cases hresult.symm.trans hok
    · cases hresult.symm.trans hother
      exact Region.reached_of_allocate hallocate

/-- A field that has a buffer keeps it. -/
theorem ensure_of_stores (region : Region) (hstores : region.Stores info) :
    CommState.Always (· = region) (Region.ensure info) fun result after =>
      result = .ok () ∧ after = region := by
  refine (ensure_from region info).mono fun result after hcourse => ?_
  rw [hstores.allocate_eq_ok] at hcourse
  rcases hcourse with ⟨_, heq, hresult, rfl⟩ | ⟨_, heq, -⟩
  · cases heq
    exact ⟨hresult, rfl⟩
  · cases heq

/-- The exchange of a field changes no flag, whether it succeeds or fails. -/
theorem onField_flags (x : CopyPlan.Exchange Unit) :
    CommState.Always (fun region => region.ghostsValid = v ∧ region.Stores info) (CopyPlan.onField info x)
      fun _ region => region.ghostsValid = v ∧ region.Stores info := by
  refine .get_bind fun region hregion => ?_
  refine .check_bind (fun data _ => ?_) fun _ _ _ hafter => hafter ▸ hregion
  refine .lift_bind ?_
  rintro ⟨result, data'⟩
  refine .update_bind (.of_result result ?_)
  rintro _ rfl
  exact ⟨(region.ghostsValid_setBytes _ _).trans hregion.1, hregion.2.setBytes _ _⟩

theorem refresh_flags (p : CopyPlan) (info : FieldInfo) (v : Nat → Bool) :
    CommState.Always (·.ghostsValid = v) (p.refresh info) fun result region =>
      region.ghostsValid = v ∧ (result = .ok () → region.Stores info) := by
  refine .get_bind fun region hregion => ?_
  refine .check_bind (fun _ _ => ?_) fun _ _ _ hafter => ⟨hafter ▸ hregion, nofun⟩
  refine .bind ((ensure_flags info v).of_pre fun _ hafter => hafter ▸ hregion) (fun _ => ?_)
    fun _ _ hafter => ⟨hafter.1, nofun⟩
  refine .lift_bind fun _ => ?_
  have honField := (onField_flags (v := v) (p.exchange info.typeSize)).mono
    fun (result : Except Failure Unit) region hafter =>
      show region.ghostsValid = v ∧ (result = .ok () → region.Stores info) from
        ⟨hafter.1, fun _ => hafter.2⟩
  exact honField.of_pre fun _ hafter => ⟨hafter.1, hafter.2.1 rfl⟩

/-- A copy raises the flag of its field if it returns, and changes no flag if it fails. -/
theorem copy_flags (p : CopyPlan) (info : FieldInfo) (v : Nat → Bool) :
    CommState.Always (·.ghostsValid = v)
      (do
        p.refresh info
        modify (·.setGhostsValid info.field true)) fun result region =>
      region.ghostsValid = Function.update v info.field (result.isOk || v info.field) := by
  refine .bind (refresh_flags p info v) (fun _ => ?_) fun _ _ hafter => ?_
  · refine .update _ fun region hregion => ?_
    have hallocated := (hregion.2 rfl).isAllocated
    rw [Region.ghostsValid_setGhostsValid fun _ => hallocated, hregion.1]
    rfl
  · rw [hafter.1]
    exact (Function.update_eq_self info.field v).symm

theorem prepare_flags (info : FieldInfo) (pack : Pack) (v : Nat → Bool) :
    CommState.Always (·.ghostsValid = v) (Topology.prepare info pack) fun _ region =>
      region.ghostsValid = v := by
  refine .bind (ensure_flags info v) (fun _ => ?_) fun _ _ hafter => hafter.1
  refine .get_bind fun region hregion => .pure _ ?_
  rintro _ rfl
  exact hregion.1

/-- A task changes no flag, whether it succeeds or fails. -/
theorem runTask_flags {α : Type} (info : FieldInfo) (element : Region.ElementType)
    (task : Topology.Task α) (v : Nat → Bool) :
    CommState.Always (·.ghostsValid = v) (Topology.runTask info element task) fun _ region =>
      region.ghostsValid = v := by
  have hview : CommState.Always (·.ghostsValid = v) (Region.ensureView info element)
      fun _ region => region.ghostsValid = v := by
    refine .check_bind (fun _ _ => ?_) fun _ _ _ h => h
    refine .bind (ensure_flags info v) (fun _ => ?_) fun _ _ hafter => hafter.1
    refine .get_bind fun region hregion => ?_
    refine .check_bind (fun _ _ => .of_check _ ?_) ?_
    · rintro _ rfl
      exact hregion.1
    · rintro _ _ _ rfl
      exact hregion.1
  refine .bind hview (fun view => .of_known fun region hregion => ?_) fun _ _ hafter => hafter
  refine .update_bind (.of_fault _ ?_)
  rintro _ rfl
  exact (region.ghostsValid_setBytes _ _).trans hregion

/-- A call for a view of a field that has a buffer comes as far as that. -/
theorem runTask_of_stores {α : Type} (info : FieldInfo) (element : Region.ElementType) (a : α) :
    CommState.Always (·.Stores info) (Topology.runTask info element (pure a)) fun result _ =>
      Region.reached info element.size result = true := by
  have hview : CommState.Always (·.Stores info) (Region.ensureView info element) fun result _ =>
      Region.reached info element.size result = true := by
    refine .check_bind (fun _ _ => ?_) fun error herror _ _ => ?_
    · refine .of_known fun region hstores => ?_
      refine .bind (ensure_of_stores region hstores) (fun _ => ?_) fun _ _ hafter => nomatch hafter.1
      refine .get_bind fun after hafter => ?_
      have hstores : after.Stores info := hafter.2 ▸ hstores
      obtain ⟨data, hbytes⟩ := hstores.bytes_eq_ok
      rw [hbytes]
      refine .check_bind (fun data _ => .of_check _ fun _ _ => ?_) fun _ herror => nomatch herror
      cases hcast : Region.castTo info element data with
      | ok view => rfl
      | error error => exact List.contains_iff_mem.mpr (Region.mem_viewFailures_of_castTo hcast)
    · exact List.contains_iff_mem.mpr (Region.mem_viewFailures_of_checkElement herror)
  refine .bind hview (fun view => ?_) fun failure _ hreached => hreached
  exact .of_known fun region _ => .update_bind (.of_fault _ fun _ _ => rfl)

/-- A field is asked for, to be overwritten. Its flag goes down once it has its buffer, also if the view
fails. -/
theorem mutView_flags (info : FieldInfo) (element : Region.ElementType) (v : Nat → Bool) :
    CommState.Always (·.ghostsValid = v)
      (do
        Region.ensure info
        modify (·.setGhostsValid info.field false)
        Topology.runTask info element (pure ())) fun result region =>
      region.ghostsValid =
        Function.update v info.field (v info.field && !Region.reached info element.size result) := by
  refine .bind (ensure_flags info v) (fun _ => ?_) fun failure region hafter => ?_
  · refine .of_known fun region hregion => .update_bind ?_
    have hstale : (region.setGhostsValid info.field false).ghostsValid =
        Function.update v info.field false := by
      rw [Region.ghostsValid_setGhostsValid fun _ => (hregion.2.1 rfl).isAllocated, hregion.1]
    have hstores := (hregion.2.1 rfl).setGhostsValid info.field false
    have htask := (runTask_flags info element (pure ()) (Function.update v info.field false)).and
      (runTask_of_stores info element ())
    refine (htask.mono fun result after hafter => ?_).of_pre ?_
    · rw [hafter.1, hafter.2, Bool.not_true, Bool.and_false]
    · rintro _ rfl
      exact ⟨hstale, hstores⟩
  · rw [hafter.1, hafter.2.2 failure rfl element.size, Bool.not_false, Bool.and_true,
      Function.update_eq_self]

end

/-! ## Flags of a topology -/

/-- The flags of all fields, by their index spaces. -/
abbrev Flags := Nat → Nat → Bool

/-- Set the flag of a field. -/
def Flags.set (flags : Flags) (info : FieldInfo) (valid : Bool) : Flags :=
  Function.update flags info.indexSpace
    (Function.update (flags info.indexSpace) info.field valid)

theorem Flags.set_self (flags : Flags) (info : FieldInfo) :
    flags.set info (flags info.indexSpace info.field) = flags := by
  rw [Flags.set, Function.update_eq_self, Function.update_eq_self]

theorem Flags.set_get (flags : Flags) (info : FieldInfo) (valid : Bool) :
    flags.set info valid info.indexSpace info.field = valid := by
  rw [Flags.set, Function.update_self, Function.update_self]

theorem Flags.set_of_ne (flags : Flags) (info : FieldInfo) (valid : Bool) {space field : Nat}
    (h : ¬ (info.indexSpace = space ∧ info.field = field)) :
    flags.set info valid space field = flags space field := by
  rw [Flags.set]
  by_cases hspace : info.indexSpace = space
  · subst hspace
    rw [Function.update_self, Function.update_of_ne fun hfield => h ⟨rfl, hfield.symm⟩]
  · rw [Function.update_of_ne (Ne.symm hspace)]

theorem Flags.set_set (flags : Flags) (info : FieldInfo) (valid valid' : Bool) :
    (flags.set info valid).set info valid' = flags.set info valid' := by
  rw [Flags.set, Flags.set, Function.update_self, Function.update_idem, Function.update_idem]
  rfl

namespace Topology

/-- The flags of all fields that a topology stores. -/
def flags (t : Topology) : Flags :=
  fun space field => (t.regions[space]?).any (·.ghostsValid field)

/-- A topology has these flags, and one region for each of its index spaces. -/
structure Shows (flags : Flags) (n : Nat) (t : Topology) : Prop where
  flags_eq : t.flags = flags
  regions : t.regions.length = n
  spaces : t.indexSpaces = n

section
variable {α : Type} {t : Topology} {flags : Flags} {n space : Nat}

theorem flags_eq_of_fetch {region : Region} (hregion : fetch t.regions space = .ok region) :
    region.ghostsValid = t.flags space := by
  funext field
  rw [Topology.flags, fetch_eq_ok_iff.mp hregion]
  rfl

theorem Shows.set_region (h : t.Shows flags n) (hspace : space < n) (region : Region) :
    ({ t with regions := t.regions.set space region } : Topology).Shows
      (Function.update flags space region.ghostsValid) n where
  flags_eq := by
    funext other field
    rw [← h.flags_eq, Topology.flags, List.getElem?_set]
    by_cases hother : space = other
    · subst hother
      rw [if_pos rfl, if_pos (h.regions ▸ hspace), Function.update_self]
      rfl
    · rw [if_neg hother, Function.update_of_ne (Ne.symm hother)]
      rfl
  regions := by rw [List.length_set, h.regions]
  spaces := h.spaces

/-- What an action makes of the flags of a region, it makes of those of a topology. -/
theorem onRegion_flags {x : CommState Region α}
    (change : Except Failure α → (Nat → Bool) → (Nat → Bool) → Prop)
    (hx : ∀ v, CommState.Always (·.ghostsValid = v) x fun result region =>
      change result v region.ghostsValid) (flags : Flags) (hspace : space < n) :
    CommState.Always (Shows flags n) (onRegion space x) fun result t =>
      ∃ v, change result (flags space) v ∧ t.Shows (Function.update flags space v) n := by
  refine .get_bind fun t ht => ?_
  obtain ⟨region, hregion⟩ : ∃ region, fetch t.regions space = .ok region :=
    ⟨_, fetch_eq_ok_iff.mpr (List.getElem?_eq_getElem (ht.regions ▸ hspace))⟩
  rw [hregion]
  have hflags : region.ghostsValid = flags space := by
    rw [flags_eq_of_fetch hregion, ht.flags_eq]
  refine .run_bind (hx (flags space)) hflags fun result region' hafter => ?_
  refine .set_bind (.of_result result ?_)
  rintro _ rfl
  exact ⟨_, hafter, ht.set_region hspace region'⟩

/-- An action that changes no flag of a region changes none of a topology. -/
theorem onRegion_keeps {x : CommState Region α}
    (hx : ∀ v, CommState.Always (·.ghostsValid = v) x fun _ region => region.ghostsValid = v)
    (flags : Flags) (n space : Nat) :
    CommState.Always (Shows flags n) (onRegion space x) fun _ => Shows flags n := by
  by_cases hspace : space < n
  · refine (onRegion_flags (fun _ v v' => v' = v) hx flags hspace).mono fun _ t hafter => ?_
    obtain ⟨_, rfl, hshows⟩ := hafter
    rwa [Function.update_eq_self] at hshows
  · refine .get_bind fun t ht => .fault_bind (fun region hregion => ?_) fun _ _ _ hafter => hafter ▸ ht
    have hlt := (List.getElem?_eq_some_iff.mp (fetch_eq_ok_iff.mp hregion)).1
    exact absurd (ht.regions ▸ hlt) hspace

theorem lt_of_checkSpace (h : t.checkSpace space = .ok ()) : space < t.indexSpaces := by
  by_contra hspace
  rw [checkSpace, if_neg hspace] at h
  cases h

/-- A call for a field of an index space that there is not comes to no buffer. -/
theorem reached_of_checkSpace {error : MeshError} (h : t.checkSpace space = .error error)
    (info : FieldInfo) (elementSize : Nat) :
    Region.reached info elementSize (.error (.reported error) : Except Failure α) = false := by
  rw [checkSpace] at h
  split at h
  · cases h
  · cases h
    simp [Region.reached, Region.viewFailures]

/-- A plan is only found for an index space of the topology. -/
theorem lt_of_plan {plan : CopyPlan} (h : t.plan space = .ok plan) : space < t.indexSpaces := by
  rw [Topology.plan, ofSpace, Checked.bind_eq_ok_iff] at h
  obtain ⟨_, hcheck, -⟩ := h
  exact lt_of_checkSpace (Checked.liftM_reported_eq_ok_iff.mp hcheck)

variable (info : FieldInfo) (flags : Flags) (n : Nat)

theorem ghostCopy_flags :
    CommState.Always (Shows flags n) (ghostCopy info) fun result =>
      Shows (flags.set info (result.isOk || flags info.indexSpace info.field)) n := by
  refine .get_bind fun t ht => ?_
  refine .result_bind (fun plan hplan => ?_) fun failure _ after hafter => ?_
  · have hspace := ht.spaces ▸ lt_of_plan hplan
    have hcopy := onRegion_flags
      (fun result v v' => v' = Function.update v info.field (result.isOk || v info.field))
      (copy_flags plan info) flags hspace
    refine CommState.Always.of_pre (hcopy.mono fun result after hafter => ?_) fun _ hafter => hafter ▸ ht
    obtain ⟨_, rfl, hshows⟩ := hafter
    exact hshows
  · rw [hafter]
    exact (flags.set_self info).symm ▸ ht

/-- The flag of a field goes down. -/
theorem markStale_flags (hspace : info.indexSpace < n) :
    CommState.Always (Shows flags n)
      (onRegion info.indexSpace (modify (·.setGhostsValid info.field false))) fun result t =>
        result = .ok ⟨⟩ ∧ t.Shows (flags.set info false) n := by
  have hstale : ∀ v, CommState.Always (·.ghostsValid = v)
      (modify (·.setGhostsValid info.field false) : CommState Region PUnit) fun result region =>
        result = .ok ⟨⟩ ∧ region.ghostsValid = Function.update v info.field false := by
    refine fun v => .update _ ?_
    rintro region rfl
    exact ⟨rfl, Region.ghostsValid_setGhostsValid fun h => absurd h Bool.false_ne_true⟩
  refine (onRegion_flags
    (fun result v v' => result = .ok ⟨⟩ ∧ v' = Function.update v info.field false)
    hstale flags hspace).mono fun result t hafter => ?_
  obtain ⟨_, ⟨hresult, rfl⟩, hshows⟩ := hafter
  exact ⟨hresult, hshows⟩

/-- An access ends by marking the ghosts of the field as stale if the task may write. -/
theorem finishAccess_flags (hspace : info.indexSpace < n) (writes copied : Bool) :
    CommState.Always (Shows flags n)
      (do
        if writes then
          onRegion info.indexSpace do modify (·.setGhostsValid info.field false)
        return copied) fun result t =>
          result = .ok copied ∧
            t.Shows (flags.set info (flags info.indexSpace info.field && !writes)) n := by
  cases writes with
  | false =>
    refine .pure copied fun t ht => ⟨rfl, ?_⟩
    rw [Bool.not_false, Bool.and_true, flags.set_self]
    exact ht
  | true =>
    refine .bind (markStale_flags info flags n hspace) (fun _ => ?_) fun _ _ hafter => nomatch hafter.1
    refine .pure copied fun t ht => ⟨rfl, ?_⟩
    rw [Bool.not_true, Bool.and_false]
    exact ht.2

/-- An access raises the flag of its field if it copies, and then takes it down if the task may write. An
access that fails changes no flag. -/
theorem access_flags (pack : Pack) :
    CommState.Always (Shows flags n) (access info pack) fun result =>
      Shows (flags.set info (match result with
        | .ok copied => (copied || flags info.indexSpace info.field) && !pack.allowsWrite
        | .error _ => flags info.indexSpace info.field)) n := by
  refine .get_bind fun t ht => ?_
  refine .check_bind (fun _ hcheck => ?_) fun failure _ after hafter => ?_
  · have hspace := ht.spaces ▸ lt_of_checkSpace hcheck
    have hprepare := onRegion_keeps (prepare_flags info pack) flags n info.indexSpace
    refine .bind (hprepare.of_pre fun _ hafter => hafter ▸ ht) (fun needed => ?_) fun _ _ hafter => ?_
    · cases needed with
      | false =>
        refine (finishAccess_flags info flags n hspace pack.allowsWrite false).mono ?_
        rintro result after ⟨rfl, hshows⟩
        exact hshows
      | true =>
        refine .bind (ghostCopy_flags info flags n) (fun _ => ?_) fun _ _ hafter => hafter
        refine (finishAccess_flags info _ n hspace pack.allowsWrite true).mono ?_
        rintro result after ⟨rfl, hshows⟩
        rwa [Flags.set_set, Flags.set_get] at hshows
    · rw [flags.set_self]
      exact hafter
  · rw [hafter, flags.set_self]
    exact ht

/-- A call for a field takes its flag down once it comes as far as the buffer. -/
theorem fieldMut_flags (element : Region.ElementType) :
    CommState.Always (Shows flags n) (fieldMut info element (pure ())) fun result =>
      Shows (flags.set info
        (flags info.indexSpace info.field && !Region.reached info element.size result)) n := by
  refine .get_bind fun t ht => ?_
  refine .check_bind (fun _ hcheck => ?_) fun error herror after hafter => ?_
  · have hspace := ht.spaces ▸ lt_of_checkSpace hcheck
    have hview := onRegion_flags
      (fun result v v' => v' =
        Function.update v info.field (v info.field && !Region.reached info element.size result))
      (mutView_flags info element) flags hspace
    refine CommState.Always.of_pre (hview.mono fun result after hafter => ?_) fun _ hafter => hafter ▸ ht
    obtain ⟨_, rfl, hshows⟩ := hafter
    exact hshows
  · rw [reached_of_checkSpace herror, Bool.not_false, Bool.and_true, hafter, flags.set_self]
    exact ht

end

end Topology

end HaloMesh
