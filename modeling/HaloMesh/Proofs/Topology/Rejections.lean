-- SUMMARY: An access that is rejected leaves a topology as it is, unless only the size of the elements is wrong.
import HaloMesh.Proofs.Collective.Reports
import HaloMesh.Proofs.Comm.Rejections
import HaloMesh.Proofs.CopyPlan.Frame
import HaloMesh.Proofs.Topology.Turns

/-!
# Rejected accesses

A call that names no field of the topology is rejected before anything is allocated, copied or marked. What
could be wrong with a descriptor is found when the field is given its buffer, and from then on the field is
there. The one check that comes later is that of the element type of a view. So a call with elements of a
wrong size is rejected only after the field has been allocated and its ghosts outdated, or after a whole
access.
-/

namespace HaloMesh

open CommState (Always Rejects Spares)

/-- The errors that a rank finds on its own, before others could be involved. -/
def MeshError.IsLocal : MeshError → Prop
  | .indexSpaceOutOfRange .. | .fieldNotFound .. | .registryNotInstalled | .fieldSpaceMismatch ..
  | .fieldTypeSize .. | .fieldUnallocated .. => True
  | _ => False

theorem MeshError.OfTraffic.not_isLocal : ∀ e : MeshError, e.OfTraffic → ¬ e.IsLocal := by
  intro e h
  cases e with
  | communication source cause => exact id
  | serialization cause => exact id
  | invariant violation => exact id
  | _ => exact h.elim

/-! ## Regions -/

namespace Region

variable {α : Type} {region region' : Region} {info : FieldInfo}

/-- What is reported when a field gets no buffer is found before anything is logged. -/
theorem allocationText?_of_reported {e : MeshError} (h : region.allocate info = .error (.reported e)) :
    region.allocationText? info = none := by
  rw [allocate] at h
  rw [allocationText?]
  cases hspace : region.checkSpace info with
  | error cause => rfl
  | ok _ =>
    rw [hspace, Checked.liftM_reported_ok, Checked.ok_bind] at h
    cases hsize : Word.mul region.length info.typeSize with
    | error cause => rfl
    | ok size =>
      rw [hsize, Checked.liftM_ok, Checked.ok_bind] at h
      cases hbuffer : region.buffer? info.field with
      | some buffer => rfl
      | none =>
        simp only [hbuffer] at h
        cases hfresh : zeroBuffer size info.typeSize with
        | ok fresh =>
          rw [hfresh] at h
          cases h
        | error cause =>
          rw [hfresh] at h
          cases h

theorem rejects_ensure (info : FieldInfo) (error : MeshError → Prop) :
    Rejects (fun _ => True) error (ensure info) := by
  intro transport h region _ e _ hreports
  rcases ensure_from region info transport h region rfl with
    ⟨_, -, hresult, -⟩ | ⟨failure, hallocate, hresult, -⟩
  · cases hresult.symm.trans hreports
  · cases hresult.symm.trans hreports
    rw [CommState.Ends, ensure_eq_done hallocate (allocationText?_of_reported hallocate)]
    rfl

theorem stores_of_ensure (info : FieldInfo) :
    Always (fun _ => True) (ensure info) fun result region =>
      Outcome (fun _ => True) (fun _ => region.Stores info) result := by
  refine .of_known fun region _ => (ensure_from region info).mono fun result after hafter => ?_
  rcases hafter with ⟨region', hallocate, rfl, rfl⟩ | ⟨failure, -, rfl, -⟩
  · exact (stores_of_allocate hallocate).1
  · cases failure <;> exact trivial

/-- What is done with a field that has a buffer ends in no local error, and the field keeps its buffer. -/
abbrev Proceeds (info : FieldInfo) (x : CommState Region α) : Prop :=
  CommState.Keeps (·.Stores info) MeshError.IsLocal x

theorem proceeds_ensure (info : FieldInfo) : Proceeds info (ensure info) := by
  refine .of_known fun region hstores => (ensure_of_stores region hstores).mono ?_
  rintro _ _ ⟨rfl, rfl⟩
  exact hstores

theorem proceeds_setGhostsValid (info : FieldInfo) (valid : Bool) :
    Proceeds info (modify (·.setGhostsValid info.field valid)) :=
  .update _ fun _ hstores => hstores.setGhostsValid info.field valid

/-- A field that gets no buffer goes no further. -/
theorem rejects_of_not_allocate {f : Unit → CommState Region α} {error : MeshError → Prop} :
    Rejects (fun region => ∀ region', region.allocate info ≠ .ok region') error (ensure info >>= f) := by
  have hfails : Always (fun region => ∀ region', region.allocate info ≠ .ok region') (ensure info)
      fun result _ => result ≠ .ok () := by
    refine .of_known fun region hnone => (ensure_from region info).mono ?_
    rintro _ _ (⟨region', hallocate, -⟩ | ⟨failure, -, rfl, -⟩)
    · exact absurd hallocate (hnone region')
    · exact nofun
  refine ((rejects_ensure info error).of_pre fun _ _ => trivial).bind hfails fun _ => ?_
  exact fun _ _ _ hok => absurd rfl hok

theorem rejects_ensure_bind {f : Unit → CommState Region α} (hf : ∀ a, Proceeds info (f a)) :
    Rejects (fun _ => True) MeshError.IsLocal (ensure info >>= f) :=
  (rejects_ensure info _).bind (stores_of_ensure info) fun a => (hf a).spares

end Region

/-! ## Exchanges -/

namespace CopyPlan

variable {error : MeshError → Prop} (p : CopyPlan) (size : Nat)

theorem postReceive_ensures (source : Nat × List Run) :
    (p.postReceive size source).Ensures error fun _ => True := by
  obtain ⟨source, runs⟩ := source
  refine (CommState.Ensures.of_fault fun _ _ => trivial).andThen fun summary => ?_
  refine (CommState.Ensures.of_fault fun _ _ => trivial).andThen fun length => ?_
  refine (CommState.Ensures.of_fault fun _ _ => trivial).andThen fun _ => ?_
  exact (CommState.Ensures.of_program _).andThen fun _ => .pure trivial

theorem postSend_ensures (dest : Nat × List Run) :
    (p.postSend size dest).Ensures error fun _ => True := by
  obtain ⟨dest, runs⟩ := dest
  refine CommState.Ensures.get.andThen fun data => ?_
  refine (CommState.Ensures.of_fault fun _ _ => trivial).andThen fun payload => ?_
  exact (CommState.Ensures.of_program _).andThen fun _ => .pure trivial

theorem copyOwn_ensures (r : Run) : (copyOwn size r).Ensures error fun _ => True := by
  refine CommState.Ensures.get.andThen fun data => ?_
  exact (CommState.Ensures.of_fault fun _ _ => trivial).andThen fun data => .set data

theorem ofTraffic_of_messageFrom {source length : Nat} {reply : Option Bytes} :
    ∀ e, messageFrom source length reply = .error e → e.OfTraffic := by
  intro e he
  cases reply with
  | none =>
    cases he
    exact trivial
  | some message =>
    rw [messageFrom] at he
    cases hlength : expectLength message.length length with
    | ok _ =>
      rw [hlength] at he
      cases he
    | error cause =>
      rw [hlength] at he
      cases he
      exact trivial

theorem awaitSource_ensures (herror : ∀ e : MeshError, e.OfTraffic → error e)
    (source : (Nat × List Run) × Request) {first : Option MeshError}
    (hfirst : ∀ e, first = some e → error e) :
    (awaitSource size first source).Ensures error fun first => ∀ e, first = some e → error e := by
  obtain ⟨⟨source, runs⟩, request⟩ := source
  refine (CommState.Ensures.of_program _).andThen fun reply => ?_
  cases hmessage : messageFrom source (Run.totalLength runs * size) reply with
  | ok message => exact (CommState.Ensures.update _).andThen fun _ => .pure hfirst
  | error cause => exact .pure (firstError_of hfirst (herror _ (ofTraffic_of_messageFrom _ hmessage)))

/-- An exchange reports errors of the traffic only, whatever plan it follows. -/
theorem exchange_ensures (herror : ∀ e : MeshError, e.OfTraffic → error e) :
    (p.exchange size).Ensures error fun _ => True := by
  have hnone : ∀ e, (none : Option MeshError) = some e → error e := nofun
  refine (CommState.Ensures.mapM fun source _ => p.postReceive_ensures size source).andThen fun receives => ?_
  refine (CommState.Ensures.mapM fun dest _ => p.postSend_ensures size dest).andThen fun sends => ?_
  refine (CommState.Ensures.forM (copyOwn_ensures size) _).andThen fun _ => ?_
  refine (CommState.Ensures.foldlM hnone fun source _ _ => awaitSource_ensures size herror source).bind ?_
  exact fun first hfirst => (CommState.Ensures.of_program _).andThen fun _ => .of_comm (.reportAny hfirst)

end CopyPlan

/-! ## What is done with a field -/

section
variable {α : Type} {info : FieldInfo}

theorem proceeds_onField {x : CopyPlan.Exchange Unit}
    (hx : x.Ensures (fun e => ¬ e.IsLocal) fun _ => True) :
    Region.Proceeds info (CopyPlan.onField info x) := by
  refine .get_bind fun region hstores => .check_bind (fun data _ => ?_) fun error herror => ?_
  · refine .run_bind hx.always trivial fun result data' hresult => .update_bind (.of_result result ?_)
    rintro _ rfl
    cases result with
    | ok _ => exact hstores.setBytes info.field data'
    | error failure => exact hresult.of_error
  · obtain ⟨buffer, hbuffer⟩ := hstores.bytes_eq_ok
    cases hbuffer.symm.trans herror

/-- A plan refuses a region only as a foreign one. -/
theorem CopyPlan.not_isLocal_of_checkRegion {p : CopyPlan} {region : Region} {e : MeshError}
    (h : p.checkRegion region = .error e) : ¬ e.IsLocal := by
  rw [checkRegion] at h
  split at h
  · cases h
  · cases h
    exact id

theorem proceeds_refresh (p : CopyPlan) (info : FieldInfo) : Region.Proceeds info (p.refresh info) := by
  refine .get_bind fun region hstores => .check_bind (fun _ _ => ?_) fun error herror _ _ => ?_
  · refine Always.of_pre (CommState.Keeps.bind (Region.proceeds_ensure info) fun _ => ?_) fun _ h => h ▸ hstores
    exact .lift_bind fun _ => proceeds_onField (p.exchange_ensures info.typeSize MeshError.OfTraffic.not_isLocal)
  · exact CopyPlan.not_isLocal_of_checkRegion herror

theorem rejects_refresh (p : CopyPlan) (info : FieldInfo) :
    Rejects (fun _ => True) MeshError.IsLocal (p.refresh info) := by
  refine .get_bind fun region _ => .check_bind fun _ _ => ?_
  refine (Region.rejects_ensure_bind fun _ => ?_).of_pre fun _ _ => trivial
  exact .lift_bind fun _ => proceeds_onField (p.exchange_ensures info.typeSize MeshError.OfTraffic.not_isLocal)

theorem proceeds_copy (p : CopyPlan) (info : FieldInfo) :
    Region.Proceeds info (do
      p.refresh info
      modify (·.setGhostsValid info.field true)) :=
  (proceeds_refresh p info).bind fun _ => Region.proceeds_setGhostsValid info true

theorem rejects_copy (p : CopyPlan) (info : FieldInfo) :
    Rejects (fun _ => True) MeshError.IsLocal (do
      p.refresh info
      modify (·.setGhostsValid info.field true) : CommState Region PUnit) := by
  have hany : Always (fun _ => True) (p.refresh info) fun _ _ => True := fun _ _ _ _ => trivial
  exact (rejects_refresh p info).bind hany fun _ => .update _ fun _ _ => trivial

theorem proceeds_needed (info : FieldInfo) (pack : Pack) :
    Region.Proceeds info (do return pack.shouldRefresh && !(← get).ghostsValid info.field) := by
  refine .get_bind fun region hstores => .pure _ ?_
  rintro _ rfl
  exact hstores

theorem rejects_prepare (info : FieldInfo) (pack : Pack) :
    Rejects (fun _ => True) MeshError.IsLocal (Topology.prepare info pack) :=
  Region.rejects_ensure_bind fun _ => proceeds_needed info pack

theorem stores_of_prepare (info : FieldInfo) (pack : Pack) :
    Always (fun _ => True) (Topology.prepare info pack) fun result region =>
      Outcome (fun _ => True) (fun _ => region.Stores info) result := by
  refine .bind (Region.stores_of_ensure info) (fun _ => ?_) fun _ _ hafter => hafter.of_error
  exact (proceeds_needed info pack).returns

/-- What keeps the storage of a field from being viewed as elements is no local error. -/
theorem Region.not_isLocal_of_castTo {element : Region.ElementType} {data : Bytes} {e : MeshError}
    (h : Region.castTo info element data = .error e) : ¬ e.IsLocal := by
  rw [castTo] at h
  split at h
  · cases h
    exact id
  · split at h
    · cases h
    · cases h
      exact id

theorem proceeds_runTask {element : Region.ElementType} (hsize : element.size = info.typeSize)
    (task : Topology.Task α) : Region.Proceeds info (Topology.runTask info element task) := by
  have hview : Region.Proceeds info (Region.ensureView info element) := by
    refine .check_bind (fun _ _ => ?_) fun error herror _ _ => ?_
    · refine (Region.proceeds_ensure info).bind fun _ => .get_bind fun region hstores => ?_
      obtain ⟨data, hdata⟩ := hstores.bytes_eq_ok
      rw [hdata]
      refine .check_bind (fun data _ => .of_check _ ?_) fun _ herror => nomatch herror
      rintro _ rfl
      cases hcast : Region.castTo info element data with
      | ok view => exact hstores
      | error error => exact Region.not_isLocal_of_castTo hcast
    · rw [Region.checkElement, if_pos hsize] at herror
      cases herror
  refine hview.bind fun view => .of_known fun region hstores => .update_bind (.of_fault _ ?_)
  rintro _ rfl
  have hkept := hstores.setBytes info.field (task view).2.bytes
  generalize (task view).1 = result
  cases result with
  | ok a => exact hkept
  | error cause => exact trivial

/-- A task on elements of a wrong size is turned away. -/
theorem runTask_ends {element : Region.ElementType} (hsize : element.size ≠ info.typeSize)
    (task : Topology.Task α) (transport : Transport) (h : History) (region : Region) :
    (Topology.runTask info element task).Ends transport h region []
      (.error (.reported (.fieldTypeSize info.field info.typeSize element.size))) region := by
  have hcheck : Region.checkElement info element =
      .error (.fieldTypeSize info.field info.typeSize element.size) := if_neg hsize
  exact ((CommState.Ends.of_reported hcheck).fail _).fail _

end

/-! ## Topologies -/

namespace Topology

variable {α β : Type} {t : Topology} {info : FieldInfo}

/-- The index space of the field exists, and its region has a buffer for the field. -/
structure Stores (t : Topology) (info : FieldInfo) : Prop where
  checkSpace_eq : t.checkSpace info.indexSpace = .ok ()
  region : ∃ region, fetch t.regions info.indexSpace = .ok region ∧ region.Stores info

/-- What is done with a field that has a buffer ends in no local error, and the field keeps its buffer. -/
abbrev Proceeds (info : FieldInfo) (x : Action α) : Prop :=
  CommState.Keeps (·.Stores info) MeshError.IsLocal x

/-! ### Acting on a region -/

/-- What happens with a region happens with the topology, and the region is put back. -/
theorem onRegion_ends {transport : Transport} {h : History} {es : List Event} {space : Nat}
    {region region' : Region} {result : Except Failure α} {x : CommState Region α}
    (hregion : fetch t.regions space = .ok region) (hx : x.Ends transport h region es result region') :
    (onRegion space x).Ends transport h t es result
      { t with regions := t.regions.set space region' } := by
  refine CommState.Ends.get.bind_silent ((CommState.Ends.of_fault hregion).bind_silent ?_)
  refine (CommState.Ends.lift hx).then_silent ?_
  exact (CommState.Ends.set _).bind_silent (.of_result result)

theorem set_region_self {space : Nat} {region : Region} (hregion : fetch t.regions space = .ok region) :
    { t with regions := t.regions.set space region } = t := by
  obtain ⟨hlt, rfl⟩ := List.getElem?_eq_some_iff.mp (fetch_eq_ok_iff.mp hregion)
  rw [List.set_getElem_self hlt]

theorem rejects_onRegion {error : MeshError → Prop} {pre : Region → Prop} {x : CommState Region α}
    {space : Nat} (hx : Rejects pre error x) :
    Rejects (fun t => ∀ region, fetch t.regions space = .ok region → pre region) error
      (onRegion space x) := by
  intro transport h t hpre e he hreports
  cases hregion : fetch t.regions space with
  | error cause =>
    have hfaults : (onRegion space x).Ends transport h t [] (.error (.fault cause)) t := by
      refine CommState.Ends.get.bind_silent (CommState.Ends.fail ?_ _)
      rw [hregion]
      rfl
    cases hfaults.eq_of_reports hreports
  | ok region =>
    obtain ⟨es, result, region', hends⟩ := x.exists_ends transport h region
    cases (onRegion_ends hregion hends).eq_of_reports hreports
    have hrejects := hx transport h region (hpre region hregion) e he hends.reports
    have hback := onRegion_ends hregion hrejects
    rwa [set_region_self hregion] at hback

/-- A region in which the field comes to have a buffer is put back into the topology. -/
theorem onRegion_stores {error : MeshError → Prop} {pre : Region → Prop} {x : CommState Region α}
    (hx : Always pre x fun result region => Outcome error (fun _ => region.Stores info) result)
    (hcheck : t.checkSpace info.indexSpace = .ok ())
    (hpre : ∀ region, fetch t.regions info.indexSpace = .ok region → pre region) :
    Always (· = t) (onRegion info.indexSpace x) fun result t =>
      Outcome error (fun _ => t.Stores info) result := by
  refine .get_bind fun t' ht => .fault_bind (fun region hregion => ?_) fun _ _ _ _ => trivial
  obtain rfl := ht
  refine .run_bind hx (hpre region hregion) fun result region' hafter => .set_bind (.of_result result ?_)
  rintro _ rfl
  cases result with
  | ok a =>
    refine ⟨hcheck, region', ?_, hafter⟩
    have hlt := (List.getElem?_eq_some_iff.mp (fetch_eq_ok_iff.mp hregion)).1
    exact fetch_eq_ok_iff.mpr (List.getElem?_set_self hlt)
  | error failure => exact hafter.of_error

theorem proceeds_onRegion {x : CommState Region α} (hx : Region.Proceeds info x) :
    Proceeds info (onRegion info.indexSpace x) := by
  refine .of_known fun t ht => onRegion_stores hx ht.checkSpace_eq fun region hregion => ?_
  obtain ⟨_, hregion', hstores⟩ := ht.region
  cases hregion.symm.trans hregion'
  exact hstores

/-! ### Copies and accesses -/

theorem proceeds_ghostCopy (info : FieldInfo) : Proceeds info (ghostCopy info) := by
  refine .get_bind fun t ht => .result_bind (fun plan _ => ?_) fun failure hplan _ _ => ?_
  · exact (proceeds_onRegion (proceeds_copy plan info)).of_pre fun _ h => h ▸ ht
  · rw [Topology.plan, ofSpace, ht.checkSpace_eq, Checked.liftM_reported_ok, Checked.ok_bind] at hplan
    cases hfetch : fetch t.plans info.indexSpace with
    | ok plan =>
      rw [hfetch] at hplan
      cases hplan
    | error cause =>
      rw [hfetch] at hplan
      cases hplan
      exact trivial

theorem rejects_ghostCopy (info : FieldInfo) :
    Rejects (fun _ => True) MeshError.IsLocal (ghostCopy info) := by
  refine .get_bind fun t _ => .result_bind fun plan _ => ?_
  exact (rejects_onRegion (rejects_copy plan info)).of_pre fun _ _ _ _ => trivial

/-- What is left of an access once the field has its buffer. -/
theorem proceeds_finish (info : FieldInfo) (needed writes : Bool) :
    Proceeds info (do
      if needed then ghostCopy info
      if writes then
        onRegion info.indexSpace do modify (·.setGhostsValid info.field false)
      return needed) := by
  have hmark : Proceeds info (do
      if writes then
        onRegion info.indexSpace do modify (·.setGhostsValid info.field false)
      return needed) := by
    cases writes with
    | false => exact .pure _ fun _ h => h
    | true =>
      exact (proceeds_onRegion (Region.proceeds_setGhostsValid info false)).bind fun _ => .pure _ fun _ h => h
  cases needed with
  | false => exact hmark
  | true => exact (proceeds_ghostCopy info).bind fun _ => hmark

theorem rejects_access (info : FieldInfo) (pack : Pack) :
    Rejects (fun _ => True) MeshError.IsLocal (access info pack) := by
  refine .get_bind fun t _ => .check_bind fun _ hcheck => ?_
  have hprepare : Rejects (· = t) MeshError.IsLocal (onRegion info.indexSpace (prepare info pack)) :=
    (rejects_onRegion (rejects_prepare info pack)).of_pre fun _ _ _ _ => trivial
  refine hprepare.bind (onRegion_stores (stores_of_prepare info pack) hcheck fun _ _ => trivial) ?_
  exact fun needed => (proceeds_finish info needed pack.allowsWrite).spares

/-- An access that returns leaves the field with a buffer. -/
theorem stores_of_access (info : FieldInfo) (pack : Pack) :
    Always (fun _ => True) (access info pack) fun result t =>
      Outcome (fun _ => True) (fun _ => t.Stores info) result := by
  refine .get_bind fun t _ => .check_bind (fun _ hcheck => ?_) fun _ _ _ _ => trivial
  refine .bind (onRegion_stores (stores_of_prepare info pack) hcheck fun _ _ => trivial) (fun needed => ?_)
    fun _ _ hmid => hmid.of_error
  exact (proceeds_finish info needed pack.allowsWrite).returns

/-! ### Views -/

theorem rejects_fieldMut {element : Region.ElementType} (hsize : element.size = info.typeSize)
    (task : Task α) : Rejects (fun _ => True) MeshError.IsLocal (fieldMut info element task) := by
  refine .get_bind fun t _ => .check_bind fun _ _ => ?_
  refine (rejects_onRegion (Region.rejects_ensure_bind fun _ => ?_)).of_pre fun _ _ _ _ => trivial
  exact (Region.proceeds_setGhostsValid info false).bind fun _ => proceeds_runTask hsize task

/-- A field that gets no buffer is rejected for that. -/
theorem rejects_fieldMut_of_not_allocate {element : Region.ElementType} {task : Task α}
    {error : MeshError → Prop}
    (h : t.checkSpace info.indexSpace = .ok () → ∀ region, fetch t.regions info.indexSpace = .ok region →
      ∀ region', region.allocate info ≠ .ok region') :
    Rejects (· = t) error (fieldMut info element task) := by
  refine .get_bind ?_
  rintro t rfl
  refine .check_bind fun _ hcheck => (rejects_onRegion Region.rejects_of_not_allocate).of_pre ?_
  rintro _ rfl
  exact h hcheck

/-- The check of the element type comes when the field has its buffer and its flag is down. -/
theorem fieldMut_ends {element : Region.ElementType} (hsize : element.size ≠ info.typeSize) (task : Task α)
    {region region' : Region} (hcheck : t.checkSpace info.indexSpace = .ok ())
    (hregion : fetch t.regions info.indexSpace = .ok region)
    (hallocate : region.allocate info = .ok region') (transport : Transport) (h : History) :
    ∃ logs : List LogRecord, (fieldMut info element task).Ends transport h t (logs.map .logged)
      (.error (.reported (.fieldTypeSize info.field info.typeSize element.size)))
      { t with
        regions := t.regions.set info.indexSpace (region'.setGhostsValid info.field false) } := by
  obtain ⟨logs, hensure⟩ := Region.ensure_over hallocate transport h
  refine ⟨logs, ?_⟩
  have hrejected : (do
      Region.ensure info
      modify (·.setGhostsValid info.field false)
      runTask info element task : CommState Region α).Ends transport h region (logs.map .logged)
        (.error (.reported (.fieldTypeSize info.field info.typeSize element.size)))
        (region'.setGhostsValid info.field false) :=
    hensure.then_silent ((CommState.Ends.update _).bind_silent (runTask_ends hsize task ..))
  exact CommState.Ends.get.bind_silent
    ((CommState.Ends.of_error hcheck).bind_silent (onRegion_ends hregion hrejected))

theorem rejects_withField {registry : Registry} {key : FieldKey} {element : Region.ElementType} {t : Topology}
    (hsize : ∀ info, t.fieldInfo registry key = .ok info → element.size = info.typeSize) (pack : Pack)
    (task : Task α) :
    Rejects (· = t) MeshError.IsLocal (withField registry key pack element task) := by
  refine .get_bind ?_
  rintro t rfl
  refine .check_bind fun info hinfo => ?_
  refine ((rejects_access info pack).of_pre fun _ _ => trivial).bind
    ((stores_of_access info pack).of_pre fun _ _ => trivial) fun _ => ?_
  exact (proceeds_onRegion (proceeds_runTask (hsize info hinfo) task)).spares

/-- The check of the element type comes after the access. -/
theorem withField_ends {registry : Registry} {key : FieldKey} {pack : Pack} {element : Region.ElementType}
    (hinfo : t.fieldInfo registry key = .ok info) (hsize : element.size ≠ info.typeSize) (task : Task α)
    {transport : Transport} {h : History} {es : List Event} {needed : Bool} {t' : Topology}
    (haccess : (access info pack).Ends transport h t es (.ok needed) t') :
    (withField registry key pack element task).Ends transport h t es
      (.error (.reported (.fieldTypeSize info.field info.typeSize element.size))) t' := by
  have hstores := stores_of_access info pack transport h t trivial
  rw [haccess] at hstores
  obtain ⟨region, hregion, -⟩ : ∃ region, fetch t'.regions info.indexSpace = .ok region ∧
    region.Stores info := hstores.region
  have hrejected := onRegion_ends hregion (runTask_ends hsize task transport (h.extend es) region)
  rw [set_region_self hregion] at hrejected
  refine CommState.Ends.get.bind_silent ((CommState.Ends.of_error hinfo).bind_silent ?_)
  exact haccess.then_silent hrejected

/-- Without the access there is no task. -/
theorem withField_fails {registry : Registry} {key : FieldKey} {pack : Pack} {element : Region.ElementType}
    (hinfo : t.fieldInfo registry key = .ok info) {task : Task α} {transport : Transport} {h : History}
    {es : List Event} {failure : Failure} {t' : Topology}
    (haccess : (access info pack).Ends transport h t es (.error failure) t') :
    (withField registry key pack element task).Ends transport h t es (.error failure) t' :=
  CommState.Ends.get.bind_silent ((CommState.Ends.of_error hinfo).bind_silent (haccess.fail _))

/-- Look at a field of the topology. -/
def look (info : FieldInfo) (element : Region.ElementType) : Action Region.View := do
  liftM ((← get).field info element)

theorem rejects_look (info : FieldInfo) (element : Region.ElementType) (error : MeshError → Prop) :
    Rejects (fun _ => True) error (look info element) := by
  intro transport h t _ e _ hreports
  have hends : (look info element).Ends transport h t [] (t.field info element) t :=
    CommState.Ends.get.bind_silent (.of_result _)
  rwa [hends.eq_of_reports hreports] at hends

/-! ## All accesses -/

/-- A call reports an error, and that is all it does. -/
abbrev Rejected (x : Action α) (transport : Transport) (h : History) (t : Topology) (e : MeshError) : Prop :=
  x.Ends transport h t [] (.error (.reported e)) t

/-- A call reports an error when the field has its buffer and its flag is down. All it did besides was to log
the allocation. -/
def RejectedOutdated (x : Action α) (transport : Transport) (h : History) (t : Topology) (info : FieldInfo)
    (e : MeshError) : Prop :=
  ∃ (region region' : Region) (logs : List LogRecord), fetch t.regions info.indexSpace = .ok region ∧
    region.allocate info = .ok region' ∧
    x.Ends transport h t (logs.map .logged) (.error (.reported e))
      { t with regions := t.regions.set info.indexSpace (region'.setGhostsValid info.field false) }

/-- A call does what another one does, and then reports an error. -/
def RejectedAfter (first : Action β) (x : Action α) (transport : Transport) (h : History) (t : Topology)
    (e : MeshError) : Prop :=
  ∃ b es t', first.Ends transport h t es (.ok b) t' ∧ x.Ends transport h t es (.error (.reported e)) t'

/-- The elements that are asked for are not those of the field, and this is what is reported. -/
def WrongSize (info : FieldInfo) (elementSize : Nat) (e : MeshError) : Prop :=
  elementSize ≠ info.typeSize ∧ e = .fieldTypeSize info.field info.typeSize elementSize

section
variable {transport : Transport} {h : History} {e : MeshError} {element : Region.ElementType} {task : Task α}

theorem fieldMut_of_reports (he : e.IsLocal)
    (hreports : (fieldMut info element task).Reports transport h t e) :
    Rejected (fieldMut info element task) transport h t e ∨
      WrongSize info element.size e ∧
        RejectedOutdated (fieldMut info element task) transport h t info e := by
  by_cases hsize : element.size = info.typeSize
  · exact .inl (rejects_fieldMut hsize task transport h t trivial e he hreports)
  by_cases hreached : t.checkSpace info.indexSpace = .ok () ∧ ∃ region region',
      fetch t.regions info.indexSpace = .ok region ∧ region.allocate info = .ok region'
  · obtain ⟨hcheck, region, region', hregion, hallocate⟩ := hreached
    obtain ⟨logs, hends⟩ := fieldMut_ends hsize task hcheck hregion hallocate transport h
    cases hends.eq_of_reports hreports
    exact .inr ⟨⟨hsize, rfl⟩, region, region', logs, hregion, hallocate, hends⟩
  · refine .inl (rejects_fieldMut_of_not_allocate ?_ transport h t rfl e he hreports)
    exact fun hcheck region hregion region' hallocate =>
      hreached ⟨hcheck, region, region', hregion, hallocate⟩

theorem withField_of_reports {registry : Registry} {key : FieldKey} {pack : Pack} (he : e.IsLocal)
    (hreports : (withField registry key pack element task).Reports transport h t e) :
    Rejected (withField registry key pack element task) transport h t e ∨
      ∃ info, t.fieldInfo registry key = .ok info ∧ WrongSize info element.size e ∧
        RejectedAfter (access info pack) (withField registry key pack element task) transport h t
          e := by
  by_cases hsize : ∀ info, t.fieldInfo registry key = .ok info → element.size = info.typeSize
  · exact .inl (rejects_withField hsize pack task transport h t rfl e he hreports)
  obtain ⟨info, hinfo, hsize⟩ : ∃ info, t.fieldInfo registry key = .ok info ∧
      element.size ≠ info.typeSize := by
    simpa using hsize
  obtain ⟨es, result, t', haccess⟩ := (access info pack).exists_ends transport h t
  cases result with
  | ok needed =>
    have hends := withField_ends hinfo hsize task haccess
    cases hends.eq_of_reports hreports
    exact .inr ⟨info, hinfo, ⟨hsize, rfl⟩, needed, es, t', haccess, hends⟩
  | error failure =>
    cases (withField_fails hinfo haccess).eq_of_reports hreports
    exact .inl (withField_fails hinfo (rejects_access info pack transport h t trivial e he haccess.reports))

end

/-- A call that a rank turns away for an error of its own leaves the topology as it is, and nothing happens.
The exceptions are a view of a field that was given a buffer and outdated first, and a task on a field that
was accessed first. Only the size of the elements is wrong then. -/
theorem rejections_leave_topology (t : Topology) (transport : Transport) (h : History) {e : MeshError}
    (he : e.IsLocal) :
    (∀ info pack, (access info pack).Reports transport h t e →
      Rejected (access info pack) transport h t e) ∧
    (∀ info, (ghostCopy info).Reports transport h t e → Rejected (ghostCopy info) transport h t e) ∧
    (∀ info element, (look info element).Reports transport h t e →
      Rejected (look info element) transport h t e) ∧
    (∀ info element (task : Task α), (fieldMut info element task).Reports transport h t e →
      Rejected (fieldMut info element task) transport h t e ∨
        WrongSize info element.size e ∧
          RejectedOutdated (fieldMut info element task) transport h t info e) ∧
    ∀ registry key pack element (task : Task α),
      (withField registry key pack element task).Reports transport h t e →
        Rejected (withField registry key pack element task) transport h t e ∨
          ∃ info, t.fieldInfo registry key = .ok info ∧ WrongSize info element.size e ∧
            RejectedAfter (access info pack) (withField registry key pack element task) transport h t
              e := by
  refine ⟨fun info pack => ?_, fun info => ?_, fun info element => ?_, ?_, ?_⟩
  · exact rejects_access info pack transport h t trivial e he
  · exact rejects_ghostCopy info transport h t trivial e he
  · exact rejects_look info element _ transport h t trivial e he
  · exact fun info element task => fieldMut_of_reports he
  · exact fun registry key pack element task => withField_of_reports he

/-- An access to an index space that does not exist, and a view of a field without a buffer. -/
theorem rejections_leave_ring :
    let unknown : MeshError := .indexSpaceOutOfRange 1 1
    let unallocated : MeshError := .fieldUnallocated 0
    Built ringOfThree ∧ unknown.IsLocal ∧ unallocated.IsLocal ∧
      (access ⟨0, 1, 1⟩ (.ofMode .ro)).Reports (.ofInbox []) [] ringOfThree unknown ∧
      Rejected (access ⟨0, 1, 1⟩ (.ofMode .ro)) (.ofInbox []) [] ringOfThree unknown ∧
      (look ⟨0, 0, 1⟩ ⟨1, true⟩).Reports (.ofInbox []) [] ringOfThree unallocated ∧
      Rejected (look ⟨0, 0, 1⟩ ⟨1, true⟩) (.ofInbox []) [] ringOfThree unallocated := by
  intro unknown unallocated
  have hunknown := rejections_leave_topology (α := Unit) ringOfThree (.ofInbox []) [] (e := unknown) trivial
  have hunallocated :=
    rejections_leave_topology (α := Unit) ringOfThree (.ofInbox []) [] (e := unallocated) trivial
  exact ⟨built_ringOfThree, trivial, trivial, rfl, hunknown.1 _ _ rfl, rfl, hunallocated.2.2.1 _ _ rfl⟩

/-- A view of a field as elements that it does not have is turned away, and the flag of the field, which was
up after a copy, is down. -/
theorem ghostsValid_after_rejected_view :
    let copy : Turn := ⟨.ghostCopy ⟨0, 0, 1⟩, fun _ bytes => bytes⟩
    let view : Turn := ⟨.fieldMut ⟨0, 0, 1⟩ 2, fun _ bytes => bytes⟩
    Built ringOfThree ∧ ∃ (first last : Topology) (before after : Region),
      ((follow 0 [copy, view] ringOfThree).runOver (.ofInbox ringInbox) []).1 =
        [(.ok none, first), (.error (.reported (.fieldTypeSize 0 1 2)), last)] ∧
      first.region 0 = .ok before ∧ before.ghostsValid 0 = true ∧
      last.region 0 = .ok after ∧ after.ghostsValid 0 = false :=
  ⟨built_ringOfThree, _, _, _, _, rfl, rfl, rfl, rfl, rfl⟩

end Topology

end HaloMesh
