-- SUMMARY: All colors agree on the status of every field, and ghosts that count as current are as their owners are.
import HaloMesh.Proofs.CopyPlan.Sizes
import Mathlib.Logic.Function.Basic

/-!
# Coherent regions

Whether ghosts are copied is decided by every color alone, on the strength of a flag in its own region.
The regions of an index space are coherent if all colors agree on these flags, and if the ghosts of
every field whose flag is set are as their owners are. Then all colors decide alike, and a copy that all
of them skip would have changed nothing.
-/

namespace HaloMesh

/-! ## Status of a field -/

/-- What a buffer says of its field, apart from the bytes. -/
structure FieldStatus where
  typeSize : Nat
  ghostsValid : Bool

/-- The status of the fields that have a buffer. -/
abbrev Statuses := Nat → Option FieldStatus

namespace Statuses

/-- Whether the ghost slots of a field count as current. -/
def ghostsValid (status : Statuses) (field : Nat) : Bool :=
  match status field with
  | some st => st.ghostsValid
  | none => false

/-- A field has no buffer, or one for elements of its size. -/
def Admits (status : Statuses) (info : FieldInfo) : Prop :=
  ∀ st, status info.field = some st → st.typeSize = info.typeSize

/-- Give a field a buffer and a flag. -/
def set (status : Statuses) (info : FieldInfo) (valid : Bool) : Statuses :=
  Function.update status info.field (some ⟨info.typeSize, valid⟩)

theorem admits_of_eq {status : Statuses} {info : FieldInfo} {valid : Bool}
    (h : status info.field = some ⟨info.typeSize, valid⟩) : status.Admits info := by
  intro st hst
  cases h.symm.trans hst
  rfl

variable (status : Statuses) (info : FieldInfo) (valid : Bool)

theorem set_self : status.set info valid info.field = some ⟨info.typeSize, valid⟩ :=
  Function.update_self ..

theorem set_of_ne {other : Nat} (h : other ≠ info.field) :
    status.set info valid other = status other :=
  Function.update_of_ne h ..

theorem ghostsValid_set_self : (status.set info valid).ghostsValid info.field = valid := by
  rw [ghostsValid, set_self]

theorem set_set (valid' : Bool) : (status.set info valid).set info valid' = status.set info valid' :=
  Function.update_idem ..

end Statuses

namespace Region

/-- The status of the fields of a region. -/
def status (region : Region) : Statuses :=
  fun field => (region.buffer? field).map fun buffer => ⟨buffer.typeSize, buffer.ghostsValid⟩

/-- The bytes of a field, of which there are none without a buffer. -/
def content (region : Region) (field : Nat) : Bytes := ((region.buffer? field).map (·.bytes)).getD []

section
variable (region : Region) (info : FieldInfo) (field : Nat) (data : Bytes) (valid : Bool)

theorem ghostsValid_eq : region.ghostsValid field = region.status.ghostsValid field := by
  unfold ghostsValid Statuses.ghostsValid status
  cases region.buffer? field with
  | some buffer => rfl
  | none => rfl

theorem content_ensured_of_ne {other : Nat} (h : other ≠ info.field) :
    (region.ensured info).content other = region.content other := by
  rw [content, buffer?_ensured, if_neg h]
  rfl

theorem content_ensured_self : (region.ensured info).content info.field = region.stored info := by
  rw [content, buffer?_ensured, if_pos rfl]
  rfl

theorem content_setBytes_of_ne {other : Nat} (h : other ≠ field) :
    (region.setBytes field data).content other = region.content other := by
  rw [content, buffer?_setBytes, if_neg h]
  rfl

theorem status_setBytes : (region.setBytes field data).status = region.status := by
  funext other
  rw [status, buffer?_setBytes]
  split
  · rw [Option.map_map]
    rfl
  · rfl

theorem content_setGhostsValid (other : Nat) :
    (region.setGhostsValid field valid).content other = region.content other := by
  rw [content, buffer?_setGhostsValid]
  split
  · rw [Option.map_map]
    rfl
  · rfl

end

variable {region : Region} {info : FieldInfo} {st : FieldStatus}

theorem exists_buffer_of_status {field : Nat} (h : region.status field = some st) :
    ∃ buffer, region.buffer? field = some buffer ∧ buffer.typeSize = st.typeSize ∧
      buffer.ghostsValid = st.ghostsValid ∧ region.content field = buffer.bytes := by
  obtain ⟨buffer, hbuffer, rfl⟩ := Option.map_eq_some_iff.mp h
  refine ⟨buffer, hbuffer, rfl, rfl, ?_⟩
  rw [content, hbuffer]
  rfl

theorem content_setBytes_self {field : Nat} (h : region.status field = some st) (data : Bytes) :
    (region.setBytes field data).content field = data := by
  obtain ⟨buffer, hbuffer, -⟩ := exists_buffer_of_status h
  rw [content, buffer?_setBytes, if_pos rfl, hbuffer]
  rfl

theorem status_setGhostsValid (h : region.status info.field = some st)
    (hsize : st.typeSize = info.typeSize) (valid : Bool) :
    (region.setGhostsValid info.field valid).status = region.status.set info valid := by
  obtain ⟨buffer, hbuffer, htypeSize, -⟩ := exists_buffer_of_status h
  funext other
  rw [status, buffer?_setGhostsValid]
  by_cases hother : other = info.field
  · subst hother
    rw [if_pos rfl, hbuffer, Statuses.set_self, ← hsize, ← htypeSize]
    rfl
  · rw [if_neg hother, Statuses.set_of_ne _ _ _ hother]
    rfl

theorem status_ensured (h : region.status.Admits info) :
    (region.ensured info).status = region.status.set info (region.status.ghostsValid info.field) := by
  funext other
  rw [status, buffer?_ensured]
  by_cases hother : other = info.field
  · subst hother
    rw [if_pos rfl, Statuses.set_self, Statuses.ghostsValid, status]
    cases hbuffer : region.buffer? info.field with
    | some buffer =>
      have hsize := h ⟨buffer.typeSize, buffer.ghostsValid⟩ (by rw [status, hbuffer]; rfl)
      simp only [Option.map_some, Option.getD_some, ← hsize]
    | none => rfl
  · rw [if_neg hother, Statuses.set_of_ne _ _ _ hother]
    rfl

theorem bytes_eq_content (hspace : info.indexSpace = region.indexSpace)
    (h : region.status info.field = some st) : region.bytes info = .ok (region.content info.field) := by
  obtain ⟨buffer, hbuffer, -, -, hcontent⟩ := exists_buffer_of_status h
  rw [bytes, checkSpace_eq_ok hspace, Checked.ok_bind, hbuffer, hcontent]
  rfl

theorem setBytes_content {field : Nat} (h : region.status field = some st) :
    region.setBytes field (region.content field) = region := by
  obtain ⟨buffer, hbuffer, -, -, hcontent⟩ := exists_buffer_of_status h
  rw [setBytes, hbuffer, hcontent]
  exact setBuffer_self hbuffer

theorem ensured_of_status (h : region.status info.field = some st) : region.ensured info = region := by
  obtain ⟨buffer, hbuffer, -⟩ := exists_buffer_of_status h
  rw [ensured, hbuffer]

/-- A field that has a buffer for elements of another size is not given one. -/
theorem ensure_rejects (hspace : info.indexSpace = region.indexSpace) (hroom : region.HasRoom info)
    (h : region.status info.field = some st) (hsize : st.typeSize ≠ info.typeSize) (rank : Nat) :
    Program.Performs rank ((ensure info).run.run region) []
      (.done (.error (.reported (.fieldTypeSize info.field st.typeSize info.typeSize)), region)) := by
  obtain ⟨buffer, hbuffer, htypeSize, -⟩ := exists_buffer_of_status h
  obtain ⟨hallocate, htext⟩ := allocate_of_typeSize_ne hspace hroom hbuffer (htypeSize ▸ hsize)
  rw [ensure_eq_done hallocate htext, htypeSize]
  exact .refl _

end Region

/-! ## Ghosts that are as their owners are -/

namespace CopyPlan

/-- What the runs of a plan fill is as it is at their sources. -/
def Filled (p : CopyPlan) (size : Nat) (held : Nat → Bytes) (data : Bytes) : Prop :=
  ∀ entry ∈ p.recv, ∀ run ∈ entry.2, ∀ fill ∈ run.fills,
    data.element size fill.dest = (held entry.1).element size fill.src

/-- Only what the colors of the group hold matters. -/
theorem Filled.congr {p : CopyPlan} {n size : Nat} {held held' : Nat → Bytes} {data : Bytes}
    (hfilled : p.Filled size held data) (hsound : p.Sound n) (hheld : ∀ r < n, held' r = held r) :
    p.Filled size held' data := by
  intro entry hentry run hrun fill hfill
  rw [hheld _ (hsound.source_lt _ (List.mem_map_of_mem hentry))]
  exact hfilled entry hentry run hrun fill hfill

/-- On a representable spec the runs of a plan fill all ghosts, each from its owner. -/
theorem Filled.follows {coloring : Coloring} {space : Nat} {d : ColoringDefinition}
    {parts : List IndexColoring} {r size : Nat} {held : Nat → Bytes} {data : Bytes}
    (hfilled : (plansOf space d parts r).Filled size held data) (h : coloring.HasSpace space d parts)
    (hr : r < parts.length) : Ghost.Follows d parts size held parts[r] data := by
  refine Ghost.Filled.follows (fun fill hfill => ?_) h hr
  rw [Ghost.fillsOf, ← Ghost.flatMap_fills_runsOf h.valid] at hfill
  obtain ⟨run, hrun, hfill⟩ := List.mem_flatMap.mp hfill
  obtain ⟨entry, hentry, hmem⟩ : ∃ entry ∈ (plansOf space d parts r).recv, run ∈ entry.2 :=
    List.mem_flatMap.mp (RunTable.mem_flatMap_bySource.mpr hrun)
  have hsource := hmem
  rw [(eq_of_mem_recv hentry).1] at hsource
  rw [Run.source_of_mem_fills hfill, (mem_runsOf_of_mem_sentTo hsource).2]
  exact hfilled entry hentry run hmem fill hfill

section
variable {n tag : Nat} {plan : Nat → CopyPlan} {info : FieldInfo} {region : Nat → Region}

/-- An exchange of elements of one size succeeds, and fills all ghosts. -/
theorem Concert.filled_of_exchanged (h : Concert n tag plan)
    (hstored : ∀ r < n, ((region r).stored info).length = (plan r).slots * info.typeSize)
    {data : Nat → Bytes} (hdata : ∀ r < n, (data r).length = (plan r).slots * info.typeSize ∧
      (plan r).Exchanged info.typeSize (replied plan (fun _ => info) region r)
        (((region r).stored info).element info.typeSize) ((data r).element info.typeSize))
    {r : Nat} (hr : r < n) :
    ending (((plan r).remoteSources.zip (replied plan (fun _ => info) region r)).findSome?
        (lack? info.typeSize)) = .ok () ∧
      (plan r).Filled info.typeSize data (data r) := by
  have hbySizes := h.bySizes hstored hr (hdata r hr).1 (hdata r hr).2
  refine ⟨hbySizes.ok_iff.mpr fun _ _ => Nat.le_refl _, fun entry hentry run hrun fill hfill => ?_⟩
  have hsource := (h.sound r hr).source_lt _ (List.mem_map_of_mem hentry)
  have hsrc : fill.src < (plan entry.1).slots := by
    have hsends := hrun
    rw [← h.runs_eq r hr entry hentry] at hsends
    have hstop := (h.sound _ hsource).src_stop_le_of_mem_sendsTo hsends
    obtain ⟨i, hi, rfl⟩ := List.mem_map.mp hfill
    exact Nat.lt_of_lt_of_le (Nat.add_lt_add_left (List.mem_range.mp hi) _) hstop
  -- The owner kept the value that it sent.
  rw [(hdata _ hsource).2.kept _ hsrc (h.src_kept r hr entry hentry run hrun fill hfill)]
  by_cases hown : entry.1 = (plan r).color
  · have hrunsOf := (h.sound r hr).recv_runsOf_of_mem hentry
    rw [hown] at hrunsOf
    rw [(hdata r hr).2.copied run (hrunsOf ▸ hrun) fill hfill, hown, h.color_eq r hr]
  · exact hbySizes.same entry (List.mem_filter.mpr ⟨hentry, bne_iff_ne.mpr hown⟩) rfl run hrun fill hfill

end

end CopyPlan

/-! ## Coherent regions -/

section
variable {n tag space : Nat} {plan : Nat → CopyPlan} {data : Nat → Bytes}

/-- The colors of an index space agree on the status of every field, and the ghosts of the fields that
count as current are as their owners are. -/
structure Coherent (n space : Nat) (plan : Nat → CopyPlan) (status : Statuses)
    (region : Nat → Region) : Prop where
  shape : ∀ r < n, (Region.new space r (plan r).slots).SameShape (region r)
  status_eq : ∀ r < n, (region r).status = status
  length_eq : ∀ r < n, ∀ field st, status field = some st →
    ((region r).content field).length = (plan r).slots * st.typeSize
  filled : ∀ field st, status field = some st → st.ghostsValid = true → ∀ r < n,
    (plan r).Filled st.typeSize (fun r => (region r).content field) ((region r).content field)

/-- Every color has room for a field. -/
def Roomy (n : Nat) (plan : Nat → CopyPlan) (info : FieldInfo) : Prop :=
  ∀ r < n, Region.chunked ((plan r).slots * info.typeSize) ≤ Word.bufferLimit

theorem coherent_new (n space : Nat) (plan : Nat → CopyPlan) :
    Coherent n space plan (fun _ => none) fun r => .new space r (plan r).slots where
  shape _ _ := .refl _
  status_eq _ _ := rfl
  length_eq _ _ _ _ h := by cases h
  filled _ _ h := by cases h

variable {status : Statuses} {region region' : Nat → Region} {info : FieldInfo} {valid : Bool}

namespace Coherent

/-- All colors give one field new contents and a new flag. -/
theorem set (h : Coherent n space plan status region) (hconcert : CopyPlan.Concert n tag plan)
    (hshape : ∀ r < n, (region r).SameShape (region' r))
    (hstatus : ∀ r < n, (region' r).status = status.set info valid)
    (hcontent : ∀ r < n, ∀ other ≠ info.field,
      (region' r).content other = (region r).content other)
    (hlength : ∀ r < n,
      ((region' r).content info.field).length = (plan r).slots * info.typeSize)
    (hfilled : valid = true → ∀ r < n, (plan r).Filled info.typeSize
      (fun r => (region' r).content info.field) ((region' r).content info.field)) :
    Coherent n space plan (status.set info valid) region' where
  shape r hr := (h.shape r hr).trans (hshape r hr)
  status_eq := hstatus
  length_eq r hr field st hst := by
    by_cases hfield : field = info.field
    · subst hfield
      rw [Statuses.set_self] at hst
      cases hst
      exact hlength r hr
    · rw [Statuses.set_of_ne _ _ _ hfield] at hst
      rw [hcontent r hr field hfield]
      exact h.length_eq r hr field st hst
  filled field st hst hvalid r hr := by
    by_cases hfield : field = info.field
    · subst hfield
      rw [Statuses.set_self] at hst
      cases hst
      exact hfilled hvalid r hr
    · rw [Statuses.set_of_ne _ _ _ hfield] at hst
      rw [hcontent r hr field hfield]
      exact (h.filled field st hst hvalid r hr).congr (hconcert.sound r hr)
        fun s hs => hcontent s hs field hfield

section
variable (h : Coherent n space plan status region)
include h

theorem status_apply {r : Nat} (hr : r < n) (field : Nat) :
    (region r).status field = status field := congrFun (h.status_eq r hr) field

theorem hasRoom {r : Nat} (hr : r < n) (hroom : Roomy n plan info) : (region r).HasRoom info :=
  (h.shape r hr).hasRoom (hroom r hr)

theorem indexSpace_eq {r : Nat} (hr : r < n) (hspace : info.indexSpace = space) :
    info.indexSpace = (region r).indexSpace :=
  hspace.trans (h.shape r hr).indexSpace_eq.symm

theorem admits {r : Nat} (hr : r < n) (hspace : info.indexSpace = space)
    (hroom : Roomy n plan info) (hadmits : status.Admits info) : (region r).Admits info := by
  refine ⟨h.indexSpace_eq hr hspace, fun buffer hbuffer => ?_, h.hasRoom hr hroom⟩
  apply hadmits ⟨buffer.typeSize, buffer.ghostsValid⟩
  rw [← h.status_apply hr, Region.status, hbuffer]
  rfl

theorem length_stored {r : Nat} (hr : r < n) (hadmits : status.Admits info) :
    ((region r).stored info).length = (plan r).slots * info.typeSize := by
  unfold Region.stored
  cases hbuffer : (region r).buffer? info.field with
  | some buffer =>
    have hst : status info.field = some ⟨buffer.typeSize, buffer.ghostsValid⟩ := by
      rw [← h.status_apply hr, Region.status, hbuffer]
      rfl
    have hlength := h.length_eq r hr _ _ hst
    rw [hadmits _ hst, Region.content, hbuffer] at hlength
    exact hlength
  | none =>
    have hlength : (region r).length = (plan r).slots := (h.shape r hr).length_eq
    rw [← hlength]
    exact List.length_replicate

/-! ## Allocation -/

/-- All colors give a field a buffer, which does not change what it holds. -/
theorem ensured (hconcert : CopyPlan.Concert n tag plan) (hadmits : status.Admits info) :
    Coherent n space plan (status.set info (status.ghostsValid info.field))
      fun r => (region r).ensured info := by
  refine h.set hconcert (fun r _ => Region.sameShape_ensured _ _) (fun r hr => ?_)
    (fun r _ _ hother => Region.content_ensured_of_ne _ _ hother) (fun r hr => ?_)
    fun hvalid r hr => ?_
  · rw [Region.status_ensured (h.status_eq r hr ▸ hadmits), h.status_eq r hr]
  · rw [Region.content_ensured_self]
    exact h.length_stored hr hadmits
  · -- Ghosts count as current only in a field that had its buffer before.
    unfold Statuses.ghostsValid at hvalid
    split at hvalid
    · rename_i st hst
      have hensured : ∀ r < n, (region r).ensured info = region r := fun r hr =>
        Region.ensured_of_status ((h.status_apply hr _).trans hst)
      have hfilled := h.filled info.field st hst hvalid r hr
      rw [hadmits st hst] at hfilled
      rw [hensured r hr]
      exact hfilled.congr (hconcert.sound r hr) fun s hs =>
        congrArg (·.content info.field) (hensured s hs)
    · cases hvalid

theorem ensure_completes (hspace : info.indexSpace = space) (hroom : Roomy n plan info)
    (hadmits : status.Admits info) :
    CommState.Completes n (fun _ => Region.ensure info) region (fun _ => .ok ())
      fun r => (region r).ensured info :=
  .of_silent fun r hr => (h.admits hr hspace hroom hadmits).ensure_yields r

/-- All colors find that the field has elements of another size. -/
theorem ensure_rejects (hspace : info.indexSpace = space) (hroom : Roomy n plan info) {st : FieldStatus}
    (hst : status info.field = some st) (hsize : st.typeSize ≠ info.typeSize) :
    CommState.Completes n (fun _ => Region.ensure info) region
      (fun _ => .error (.reported (.fieldTypeSize info.field st.typeSize info.typeSize))) region :=
  Completes.of_silent fun r hr => Region.ensure_rejects (h.indexSpace_eq hr hspace)
    (h.hasRoom hr hroom) ((h.status_apply hr _).trans hst) hsize r

/-! ## Bytes and flags -/

theorem content_setBytes {r : Nat} (hr : r < n) {st : FieldStatus}
    (hst : status info.field = some st) (data : Bytes) :
    ((region r).setBytes info.field data).content info.field = data :=
  Region.content_setBytes_self ((h.status_apply hr _).trans hst) data

/-- All colors change the bytes of a field that has a buffer. -/
theorem setBytes (hconcert : CopyPlan.Concert n tag plan)
    (hst : status info.field = some ⟨info.typeSize, valid⟩)
    (hlength : ∀ r < n, (data r).length = (plan r).slots * info.typeSize)
    (hfilled : valid = true → ∀ r < n, (plan r).Filled info.typeSize data (data r)) :
    Coherent n space plan status fun r => (region r).setBytes info.field (data r) := by
  have hset : status.set info valid = status := Function.update_eq_self_iff.mpr hst.symm
  have hcontent := fun r (hr : r < n) => h.content_setBytes hr hst (data r)
  rw [← hset]
  refine h.set hconcert (fun r _ => Region.sameShape_setBytes _ _ _) (fun r hr => ?_)
    (fun r _ _ hother => Region.content_setBytes_of_ne _ _ _ hother) (fun r hr => ?_)
    fun hvalid r hr => ?_
  · rw [hset, Region.status_setBytes, h.status_eq r hr]
  · rw [hcontent r hr]
    exact hlength r hr
  · rw [hcontent r hr]
    exact (hfilled hvalid r hr).congr (hconcert.sound r hr) hcontent

/-- All colors set the flag of a field that has a buffer. -/
theorem setGhostsValid (hconcert : CopyPlan.Concert n tag plan) {st : FieldStatus}
    (hst : status info.field = some st) (hsize : st.typeSize = info.typeSize)
    (hfilled : valid = true → ∀ r < n, (plan r).Filled info.typeSize
      (fun r => (region r).content info.field) ((region r).content info.field)) :
    Coherent n space plan (status.set info valid)
      fun r => (region r).setGhostsValid info.field valid := by
  refine h.set hconcert (fun r _ => Region.sameShape_setGhostsValid _ _ _) (fun r hr => ?_)
    (fun r _ _ _ => Region.content_setGhostsValid _ _ _ _) (fun r hr => ?_) fun hvalid r hr => ?_
  · rw [Region.status_setGhostsValid ((h.status_apply hr _).trans hst) hsize, h.status_eq r hr]
  · rw [Region.content_setGhostsValid, h.length_eq r hr _ _ hst, hsize]
  · simp only [Region.content_setGhostsValid]
    exact hfilled hvalid r hr

/-- All colors mark the ghosts of a field as stale. -/
theorem markStale (hconcert : CopyPlan.Concert n tag plan) {st : FieldStatus}
    (hst : status info.field = some st) (hsize : st.typeSize = info.typeSize) :
    Coherent n space plan (status.set info false)
      fun r => (region r).setGhostsValid info.field false :=
  h.setGhostsValid hconcert hst hsize fun hvalid => absurd hvalid Bool.false_ne_true

/-! ## Copies -/

/-- All colors copy the ghosts of a field, which then count as current. -/
theorem refresh_completes (hconcert : CopyPlan.Concert n tag plan) (hspace : info.indexSpace = space)
    (hroom : Roomy n plan info) (hadmits : status.Admits info) :
    ∃ region' : Nat → Region, CommState.Completes n
        (fun r => do
          (plan r).refresh info
          modify (·.setGhostsValid info.field true)) region (fun _ => .ok ()) region' ∧
      Coherent n space plan (status.set info true) region' := by
  have haccepts : ∀ r < n, (plan r).Accepts info (region r) := fun r hr =>
    ⟨(h.shape r hr).color_eq.trans (hconcert.color_eq r hr).symm, (h.shape r hr).length_eq,
      h.admits hr hspace hroom hadmits⟩
  have hstored : ∀ r < n, ((region r).stored info).length = (plan r).slots * info.typeSize :=
    fun r hr => h.length_stored hr hadmits
  obtain ⟨data, hcompletes, hdata⟩ := @CopyPlan.Concert.refresh_completes n tag plan (fun _ => info)
    region hconcert haccepts fun r hr => (haccepts r hr).length_eq ▸ hstored r hr
  have hfilled := fun r (hr : r < n) => hconcert.filled_of_exchanged hstored hdata hr
  have hrefresh : CommState.Completes n (fun r => (plan r).refresh info) region (fun _ => .ok ())
      fun r => ((region r).ensured info).setBytes info.field (data r) :=
    Completes.congr hcompletes (fun _ _ => rfl) fun r hr => Prod.ext (hfilled r hr).1.symm rfl
  refine ⟨_, hrefresh.bind (.of_silent fun r _ => .update r _ _), ?_⟩
  have hset := Statuses.set_self status info (status.ghostsValid info.field)
  have hensured := h.ensured hconcert hadmits
  have hcontent := fun r (hr : r < n) => hensured.content_setBytes hr hset (data r)
  have hbytes := hensured.setBytes hconcert hset (fun r hr => (hdata r hr).1)
    fun _ r hr => (hfilled r hr).2
  have hflags := hbytes.setGhostsValid hconcert hset rfl fun (_ : true = true) r hr => by
    rw [hcontent r hr]
    exact (hfilled r hr).2.congr (hconcert.sound r hr) hcontent
  rwa [Statuses.set_set] at hflags

/-- All colors find that the field has elements of another size, and copy nothing. -/
theorem refresh_rejects (hconcert : CopyPlan.Concert n tag plan) (hspace : info.indexSpace = space)
    (hroom : Roomy n plan info) {st : FieldStatus} (hst : status info.field = some st)
    (hsize : st.typeSize ≠ info.typeSize) :
    CommState.Completes n
      (fun r => do
        (plan r).refresh info
        modify (·.setGhostsValid info.field true)) region
      (fun _ => .error (.reported (.fieldTypeSize info.field st.typeSize info.typeSize))) region := by
  have hcheck : ∀ r < n, (plan r).checkRegion (region r) = .ok () := fun r hr =>
    if_pos ⟨(h.shape r hr).color_eq.trans (hconcert.color_eq r hr).symm, (h.shape r hr).length_eq⟩
  refine CommState.Completes.fail (CommState.Completes.bind (.of_silent fun r hr => .get r _) ?_) _
  refine CommState.Completes.bind (.of_silent fun r hr => .of_error (hcheck r hr) r _) ?_
  exact (h.ensure_rejects hspace hroom hst hsize).fail _

end

end Coherent

end

end HaloMesh
