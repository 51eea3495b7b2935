-- SUMMARY: A group that refreshes a field any number of times ends with every ghost slot up to date.
import HaloMesh.Proofs.CopyPlan.Exchange
import HaloMesh.Proofs.Ghost.Owners
import HaloMesh.Proofs.Region

/-!
# Refreshing a field

Every rank of a group refreshes the ghosts of a field with its own plan, some number of times. Ranks
may drift apart by several refreshes. A refresh leaves all that is owned as it is, so each of them
starts from a state that the next one brings to the same end, in which every ghost slot holds the
bytes of the slot that owns its global index.
-/

namespace HaloMesh

/-! ## Ghosts and their owners -/

namespace Ghost

section
variable {coloring : Coloring} {space : Nat} {d : ColoringDefinition} {parts : List IndexColoring}
  {color size : Nat} {initial : Nat → Nat → Bytes}

/-- What is filled of the storage of a color is as its sources are. -/
def Filled (d : ColoringDefinition) (size : Nat) (held : Nat → Bytes) (color : Nat) (data : Bytes) :
    Prop :=
  ∀ fill ∈ fillsOf d color,
    data.element size fill.dest = (held fill.source).element size fill.src

/-- Every ghost slot in the storage of a color has the bytes of the slot that owns its index. -/
def Follows (d : ColoringDefinition) (parts : List IndexColoring) (size : Nat) (held : Nat → Bytes)
    (me : IndexColoring) (data : Bytes) : Prop :=
  ∀ x, me.IsGhost x → ∃ slot, me.linear x = .ok slot ∧
    (∃ source src, Owns d parts me x source src) ∧
      ∀ source src, Owns d parts me x source src →
        data.element size slot = (held source).element size src

theorem Filled.follows {held : Nat → Bytes} {data : Bytes} (hfilled : Filled d size held color data)
    (h : coloring.HasSpace space d parts) (hcolor : color < parts.length) :
    Follows d parts size held parts[color] data := by
  intro x hx
  obtain ⟨fill, hfill, hslot, howns⟩ := exists_fill_of_isGhost h hcolor hx
  refine ⟨fill.dest, hslot, ⟨_, _, howns⟩, fun source src howns' => ?_⟩
  obtain ⟨rfl, rfl⟩ := howns.unique h howns'
  exact hfilled fill hfill

theorem filled_of_shows {held : Nat → Bytes} {data : Bytes} (h : coloring.HasSpace space d parts)
    (hcolor : color < parts.length)
    (hdata : Bytes.Shows size parts[color].extents.prod data
      (refreshed d (fun r => (held r).element size) color)) : Filled d size held color data := by
  intro fill hfill
  obtain ⟨hdest, -⟩ := bounds_of_mem_fillsOf h hcolor hfill
  rw [hdata.element_eq _ hdest]
  exact refreshed_dest h hfill

end

end Ghost

/-! ## One refresh -/

namespace CopyPlan

/-- The region is the storage that a plan was made for and has room for a field, which holds `data`. -/
structure Serves (p : CopyPlan) (info : FieldInfo) (region : Region) (data : Bytes) : Prop where
  color_eq : region.color = p.color
  length_eq : region.length = p.slots
  holds : region.Holds info data
  room : region.HasRoom info

section
variable {p : CopyPlan} {info : FieldInfo} {region : Region} {data data' : Bytes} {rank : Nat}
  {es : List Effect}

/-- The region is the storage that a plan was made for, and passes its checks for a field. -/
structure Accepts (p : CopyPlan) (info : FieldInfo) (region : Region) : Prop where
  color_eq : region.color = p.color
  length_eq : region.length = p.slots
  admits : region.Admits info

theorem accepts_of_checks (hcheck : p.checkRegion region = .ok ()) (hadmits : region.Admits info) :
    p.Accepts info region := by
  unfold checkRegion at hcheck
  split at hcheck
  · rename_i h
    exact ⟨h.1, h.2, hadmits⟩
  · cases hcheck

theorem Accepts.checkRegion_eq_ok (h : p.Accepts info region) : p.checkRegion region = .ok () :=
  if_pos ⟨h.color_eq, h.length_eq⟩

/-- A refresh ends as its exchange does, and changes nothing but the bytes of the field. -/
theorem Accepts.refresh_performs (h : p.Accepts info region) {result : Except Failure Unit}
    (hexchange : Program.Performs rank ((p.exchange info.typeSize).run.run (region.stored info)) es
      (.done (result, data'))) :
    Program.Performs rank ((p.refresh info).run.run region) es
      (.done (result, (region.ensured info).setBytes info.field data')) := by
  refine (CommState.Yields.get rank region).andThen ?_
  refine (CommState.Yields.of_error h.checkRegion_eq_ok rank region).andThen ?_
  refine (h.admits.ensure_yields rank).andThen ?_
  refine (CommState.Yields.lift (Program.performs_record ..) _).andThen ?_
  refine (CommState.Yields.get rank _).andThen ?_
  refine (CommState.Yields.of_error (Region.bytes_ensured h.admits.space_eq) rank _).andThen ?_
  refine (CommState.Yields.lift hexchange _).andThen_silent ?_
  refine (CommState.Yields.update rank _ _).andThen ?_
  cases result with
  | ok a => exact .refl _
  | error failure => exact .refl _

theorem Serves.accepts (h : p.Serves info region data) : p.Accepts info region :=
  ⟨h.color_eq, h.length_eq, h.holds.admits h.room⟩

/-- A field that is given its buffer and then new bytes. -/
theorem Serves.setBytes_ensured (h : p.Serves info region data) (hlength : data'.length = data.length) :
    p.Serves info ((region.ensured info).setBytes info.field data') data' ∧
      ((region.ensured info).setBytes info.field data').isAllocated info.field := by
  have hshape := Region.sameShape_ensured region info
  obtain ⟨hholds, hallocated⟩ := h.holds.ensured
  obtain ⟨hholds', hallocated', hcolor', hslots'⟩ := hholds.setBytes hallocated hlength
  refine ⟨⟨?_, ?_, hholds', ?_⟩, hallocated'⟩
  · exact hcolor'.trans (hshape.color_eq.trans h.color_eq)
  · exact hslots'.trans (hshape.length_eq.trans h.length_eq)
  · exact (hshape.trans (Region.sameShape_setBytes _ _ _)).hasRoom h.room

end

/-! ## Groups -/

/-- Refresh a field a number of times, and collect what the refreshes return. -/
def refreshTimes (p : CopyPlan) (info : FieldInfo) :
    Nat → Region → Program (List (Except Failure Unit) × Region)
  | 0, region => return ([], region)
  | k + 1, region => do
    let (result, region) ← (p.refresh info).run.run region
    let (results, region) ← refreshTimes p info k region
    return (result :: results, region)

section
variable {coloring : Coloring} {space : Nat} {d : ColoringDefinition} {parts : List IndexColoring}
  {info : FieldInfo} {initial : Nat → Nat → Bytes}

/-- The field of a color holds what it held at first, apart from its ghosts. -/
structure Ready (space : Nat) (d : ColoringDefinition) (parts : List IndexColoring) (info : FieldInfo)
    (initial : Nat → Nat → Bytes) (color : Nat) (region : Region) (data : Bytes) : Prop where
  serves : (plansOf space d parts color).Serves info region data
  keeps : ∃ f, Bytes.Shows info.typeSize (plansOf space d parts color).slots data f ∧
    Keeps d initial color f

/-- The field of a color is allocated and has current ghosts. -/
structure Current (space : Nat) (d : ColoringDefinition) (parts : List IndexColoring)
    (info : FieldInfo) (initial : Nat → Nat → Bytes) (color : Nat) (region : Region) (data : Bytes) :
    Prop where
  serves : (plansOf space d parts color).Serves info region data
  allocated : region.isAllocated info.field
  refreshed : Bytes.Shows info.typeSize (plansOf space d parts color).slots data
    (Ghost.refreshed d initial color)

theorem Current.ready {color : Nat} {region : Region} {data : Bytes}
    (h : Current space d parts info initial color region data) :
    Ready space d parts info initial color region data :=
  ⟨h.serves, _, h.refreshed, fun _ hslot => Ghost.refreshed_of_not_mem hslot⟩

theorem Ready.refresh_yields (h : coloring.HasSpace space d parts)
    (hs : Stocked parts info.typeSize initial) {r : Nat} (hr : r < parts.length) {region : Region}
    {data : Bytes} (hready : Ready space d parts info initial r region data) :
    ∃ data', CommState.Yields r ((plansOf space d parts r).refresh info) region
        ((Parcel.toPeers (sendsOn d r) (tagOf space) fun peer =>
            some (message d initial r peer)).map (Parcel.sent r) ++
          (Parcel.toPeers (receivesFrom d r) (tagOf space) fun peer =>
            some (message d initial peer r)).map (Parcel.received r)) ()
        ((region.ensured info).setBytes info.field data') ∧
      Current space d parts info initial r ((region.ensured info).setBytes info.field data') data' := by
  obtain ⟨hserves, f, hdata, hkeeps⟩ := hready
  have hlength := hdata.length_eq
  have hslots : (plansOf space d parts r).slots = parts[r].extents.prod := slots_plansOf hr
  rw [hslots] at hdata
  obtain ⟨data', hexchange, hshows⟩ := exchange_yields h hs hr hdata hkeeps
  rw [← hslots] at hshows
  obtain ⟨hserves', hallocated⟩ := hserves.setBytes_ensured (hshows.length_eq.trans hlength.symm)
  rw [← hserves.holds.stored_eq] at hexchange
  exact ⟨data', hserves.accepts.refresh_performs hexchange, hserves', hallocated, hshows⟩

/-- All ranks refresh the field once. Nothing but the bytes of the field changes. -/
theorem refresh_completes (h : coloring.HasSpace space d parts)
    (hs : Stocked parts info.typeSize initial) {region : Nat → Region} {data : Nat → Bytes}
    (hready : ∀ r < parts.length, Ready space d parts info initial r (region r) (data r)) :
    ∃ data' : Nat → Bytes, CommState.Completes parts.length
        (fun r => (plansOf space d parts r).refresh info) region (fun _ => .ok ())
        (fun r => ((region r).ensured info).setBytes info.field (data' r)) ∧
      ∀ r < parts.length, Current space d parts info initial r
        (((region r).ensured info).setBytes info.field (data' r)) (data' r) := by
  have hone := fun r hr => (hready r hr).refresh_yields h hs hr
  choose! data' hdata' using hone
  refine ⟨data', ?_, fun r hr => (hdata' r hr).2⟩
  exact Completes.of_round
    (matches_peers h (tagOf space) fun r s => some (message d initial r s))
    fun r hr => (hdata' r hr).1

/-- All ranks refresh the field `k + 1` times. -/
theorem refreshTimes_completes (h : coloring.HasSpace space d parts)
    (hs : Stocked parts info.typeSize initial) (k : Nat) {region : Nat → Region} {data : Nat → Bytes}
    (hready : ∀ r < parts.length, Ready space d parts info initial r (region r) (data r)) :
    ∃ (final : Nat → Region) (after : Nat → Bytes), Completes parts.length
        (fun r => (plansOf space d parts r).refreshTimes info (k + 1) (region r))
        (fun r => (List.replicate (k + 1) (.ok ()), final r)) ∧
      ∀ r < parts.length, Current space d parts info initial r (final r) (after r) := by
  induction k generalizing region data with
  | zero =>
    obtain ⟨data', hround, hcurrent⟩ := refresh_completes h hs hready
    refine ⟨_, data', ?_, hcurrent⟩
    exact Completes.bind hround (.done _ _)
  | succ k ih =>
    obtain ⟨data', hround, hcurrent⟩ := refresh_completes h hs hready
    obtain ⟨final, after, hrest, hfinal⟩ := ih fun r hr => (hcurrent r hr).ready
    refine ⟨final, after, ?_, hfinal⟩
    exact Completes.bind hround (hrest.bind (.done _ _))

theorem stocked_of_serves {region : Nat → Region} {data : Nat → Bytes}
    (hserves : ∀ r < parts.length, (plansOf space d parts r).Serves info (region r) (data r)) :
    Stocked parts info.typeSize fun r => (data r).element info.typeSize where
  bytes_le r hr := by
    have hroom := (hserves r hr).room.le
    rwa [(hserves r hr).length_eq, slots_plansOf hr] at hroom
  length_eq r hr slot hslot := by
    refine Bytes.length_element ?_ hslot
    rw [(hserves r hr).holds.length_eq, (hserves r hr).length_eq, slots_plansOf hr]

end

/-! ## Ghosts after a refresh -/

/-- Storage of a color in which every ghost slot has the bytes that its owner had before, and every
owned slot and all padding the bytes that they had themselves. -/
structure Refreshed (d : ColoringDefinition) (parts : List IndexColoring) (size : Nat)
    (before : Nat → Bytes) (color : Nat) (me : IndexColoring) (after : Bytes) : Prop where
  length_eq : after.length = (before color).length
  ghost : ∀ x, me.IsGhost x → ∃ slot, me.linear x = .ok slot ∧
    (∃ source src, Ghost.Owns d parts me x source src) ∧
      ∀ source src, Ghost.Owns d parts me x source src →
        after.element size slot = (before source).element size src
  kept : ∀ x, me.IsOwned x ∨ me.IsPadding x → ∃ slot, me.linear x = .ok slot ∧
    after.element size slot = (before color).element size slot

section
variable {coloring : Coloring} {space : Nat} {d : ColoringDefinition} {parts : List IndexColoring}
  {info : FieldInfo}

theorem Current.refreshed_of_length (h : coloring.HasSpace space d parts) {data : Nat → Bytes}
    {r : Nat} (hr : r < parts.length)
    (hlength : (data r).length = parts[r].extents.prod * info.typeSize) {region : Region} {after : Bytes}
    (hcurrent : Current space d parts info (fun r => (data r).element info.typeSize) r region after) :
    Refreshed d parts info.typeSize data r parts[r] after := by
  have hshows := hcurrent.refreshed
  rw [slots_plansOf hr] at hshows
  refine ⟨hshows.length_eq.trans hlength.symm, (Ghost.filled_of_shows h hr hshows).follows h hr,
    fun x hx => ?_⟩
  have hwithin := (IndexColoring.within_and_not_isGhost (h.partsOf.describes r hr)
    (h.valid.hasPositions_position h.fits r) hx).1
  have hslot := Ghost.linear_eq_ok h hr hwithin
  refine ⟨_, hslot, ?_⟩
  rw [hshows.element_eq _ (Grid.number_lt_prod hwithin)]
  exact Ghost.refreshed_of_not_mem (Ghost.not_mem_dests h hr hx hslot)

end

/-- Every color has its plan. When every rank of a group refreshes a field `k` times with its own, the
group ends under every interleaving, all refreshes succeed, every ghost slot of every color has the
bytes that its owner had at first, all other slots are as they were, and no message is left. -/
theorem refreshTimes_settles {spec : ColoringSpec} (hrep : spec.Representable) {coloring : Coloring}
    (hof : Coloring.ofSpec spec = .ok coloring) {space : Nat} (hspace : space < coloring.indexSpaces) :
    ∃ d parts, spec.indexSpaces[space]? = some d ∧ coloring.parts[space]? = some parts ∧
      ∃ plan : Nat → CopyPlan,
        (∀ r < coloring.colors, ofColoring coloring space r = .ok (plan r)) ∧
        ∀ (info : FieldInfo) (region : Nat → Region) (data : Nat → Bytes) (k : Nat),
          (∀ r < coloring.colors, (plan r).Serves info (region r) (data r)) → 0 < k →
          ∃ final : Nat → Region,
            (Group.start ((List.range coloring.colors).map fun r =>
              (plan r).refreshTimes info k (region r))).Settles
                ((List.range coloring.colors).map fun r => (List.replicate k (.ok ()), final r)) ∧
            ∀ r < coloring.colors, ∃ me after, parts[r]? = some me ∧
              (final r).bytes info = .ok after ∧
                Refreshed d parts info.typeSize data r me after := by
  obtain ⟨d, parts, h⟩ := Coloring.exists_hasSpace hrep hof hspace
  have hspec := (Coloring.realizes_of_ofSpec hrep.toFits hof).2.spec_eq
  rw [← h.colors_eq]
  refine ⟨d, parts, hspec ▸ h.definition, h.records, plansOf space d parts,
    fun _ hr => ofColoring_eq_plansOf h hr, ?_⟩
  intro info region data k hserves hk
  have hlength : ∀ r (hr : r < parts.length),
      (data r).length = parts[r].extents.prod * info.typeSize := by
    intro r hr
    rw [(hserves r hr).holds.length_eq, (hserves r hr).length_eq, slots_plansOf hr]
  have hready : ∀ r < parts.length,
      Ready space d parts info (fun r => (data r).element info.typeSize) r (region r) (data r) := by
    intro r hr
    refine ⟨hserves r hr, _, Bytes.shows_element ?_, fun _ _ => rfl⟩
    rw [hlength r hr, slots_plansOf hr]
  obtain ⟨j, rfl⟩ := Nat.exists_eq_succ_of_ne_zero (Nat.ne_of_gt hk)
  obtain ⟨final, after, hcompletes, hcurrent⟩ :=
    refreshTimes_completes h (stocked_of_serves hserves) j hready
  refine ⟨final, hcompletes.settles, fun r hr => ?_⟩
  have hholds := (hcurrent r hr).serves.holds
  exact ⟨_, _, List.getElem?_eq_getElem hr, hholds.bytes_eq_ok (hcurrent r hr).allocated,
    (hcurrent r hr).refreshed_of_length h hr (hlength r hr)⟩

/-- Two colors on a ring of four indices refresh twice, with elements of one byte. -/
theorem refreshTimes_settles_on_ring :
    let spec : ColoringSpec := ⟨[⟨[2], [4], [1], [0], [true]⟩]⟩
    let info : FieldInfo := ⟨7, 0, 1⟩
    let data : Nat → Bytes := fun r => [0, UInt8.ofNat (2 * r + 1), UInt8.ofNat (2 * r + 2), 0]
    let region : Nat → Region := fun r => ⟨0, r, 4, [(7, ⟨data r, 1, false⟩)]⟩
    spec.Representable ∧ ∃ coloring, Coloring.ofSpec spec = .ok coloring ∧
      0 < coloring.indexSpaces ∧
        ∃ d parts, spec.indexSpaces[0]? = some d ∧ coloring.parts[0]? = some parts ∧
          ∃ plan : Nat → CopyPlan,
            (∀ r < coloring.colors, ofColoring coloring 0 r = .ok (plan r)) ∧
            (∀ r < coloring.colors, (plan r).Serves info (region r) (data r)) ∧ 0 < 2 ∧
            ∃ final : Nat → Region,
              (Group.start ((List.range coloring.colors).map fun r =>
                (plan r).refreshTimes info 2 (region r))).Settles
                  ((List.range coloring.colors).map fun r => (List.replicate 2 (.ok ()), final r)) ∧
              ∀ r < coloring.colors, ∃ me after, parts[r]? = some me ∧
                (final r).bytes info = .ok after ∧
                  Refreshed d parts info.typeSize data r me after := by
  intro spec info data region
  have hrep : spec.Representable := by decide
  obtain ⟨d, parts, hdefinition, hrecords, plan, hplan, hruns⟩ :=
    @refreshTimes_settles spec hrep _ rfl 0 (by decide)
  refine ⟨hrep, _, rfl, by decide, d, parts, hdefinition, hrecords, plan, hplan, ?_⟩
  obtain ⟨d', parts', h⟩ := Coloring.exists_hasSpace hrep rfl (s := 0) (by decide)
  have hslots : ∀ part ∈ parts', part.extents.prod = 4 := by
    have hparts := h.records
    cases hparts
    decide
  have hroom : Region.chunked (4 * 1) ≤ Word.bufferLimit := by decide
  have hserves : ∀ r < 2, (plan r).Serves info (region r) (data r) := by
    intro r hr
    have hcolor : r < parts'.length := h.colors_eq ▸ hr
    have heq : plan r = plansOf 0 d' parts' r :=
      Except.ok.inj ((hplan r hr).symm.trans (ofColoring_eq_plansOf h hcolor))
    rw [heq]
    refine ⟨rfl, ?_, ⟨rfl, rfl, rfl, rfl⟩, hroom⟩
    rw [slots_plansOf hcolor]
    exact (hslots _ (List.getElem_mem hcolor)).symm
  exact ⟨hserves, by decide, hruns info region data 2 hserves (by decide)⟩

end CopyPlan

end HaloMesh
