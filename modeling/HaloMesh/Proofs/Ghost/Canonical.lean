-- SUMMARY: The runs of a color are its rows, each visited once, merged as far as they go.
import HaloMesh.Proofs.Ghost.Intervals
import Mathlib.Data.List.Chain

/-!
# Rows and runs

The odometer of a slab shows every combination of offsets once, so the slab is cut into one row for each
of them. The runs of a color are the rows of all its slabs, in the order in which they are visited, with
adjoining rows merged. No run that results adjoins the one before it, also where they stem from different
slabs. Such a list of runs is determined by its elements, so colors that agree on the elements agree on
the number of runs.
-/

namespace HaloMesh

/-! ## Runs that are merged as far as they go -/

namespace Run

/-- No run continues the one before it on both sides. -/
def Maximal (runs : List Run) : Prop := runs.IsChain fun r next => ¬ r.Adjoins next

theorem isChain_join {found : List Run} (h : found.IsChain fun next r => ¬ r.Adjoins next)
    (next : Run) : (join found next).IsChain fun next r => ¬ r.Adjoins next := by
  cases found with
  | nil => exact .singleton next
  | cons last earlier =>
    rw [join]
    split
    · -- The merged run starts where the last one did, so it adjoins the one before it no more than that.
      exact List.isChain_cons.mpr (List.isChain_cons.mp h)
    · rename_i hadjoin
      exact .cons_cons hadjoin h

theorem maximal_joinAll (runs : List Run) : Maximal (joinAll runs).reverse := by
  rw [Maximal, List.isChain_reverse, joinAll]
  exact List.foldlRecOn runs join .nil fun _ h next _ => isChain_join h next

/-! ## Elements determine the runs -/

theorem length_fills (r : Run) : r.fills.length = r.length := by
  rw [fills, List.length_map, List.length_range]

theorem getElem?_fills {r : Run} {i : Nat} (hi : i < r.length) :
    r.fills[i]? = some ⟨r.dest + i, r.source, r.src + i⟩ := by
  rw [fills, List.getElem?_map, List.getElem?_range hi]
  rfl

/-- The first element of some runs is that of the first run. -/
theorem getElem?_zero_flatMap_fills {r : Run} (runs : List Run) (hr : 0 < r.length) :
    ((r :: runs).flatMap fills)[0]? = some ⟨r.dest, r.source, r.src⟩ := by
  rw [List.flatMap_cons, List.getElem?_append_left (r.length_fills ▸ hr), getElem?_fills hr]
  rfl

/-- A run that is cut short has a run behind it that continues it. -/
theorem exists_adjoins_of_lt {r r' : Run} {runs runs' : List Run} (hruns : ∀ next ∈ runs, 0 < next.length)
    (hstart : r'.dest = r.dest ∧ r'.source = r.source ∧ r'.src = r.src) (hlt : r.length < r'.length)
    (h : (r :: runs).flatMap fills = (r' :: runs').flatMap fills) :
    ∃ next rest, runs = next :: rest ∧ r.Adjoins next := by
  have hnext : (runs.flatMap fills)[0]? = some ⟨r.dest + r.length, r.source, r.src + r.length⟩ := by
    have hat := congrArg (·[r.length]?) h
    simp only [List.flatMap_cons] at hat
    rw [List.getElem?_append_right (Nat.le_of_eq r.length_fills), length_fills, Nat.sub_self,
      List.getElem?_append_left (r'.length_fills ▸ hlt), getElem?_fills hlt] at hat
    obtain ⟨hdest, hsource, hsrc⟩ := hstart
    rwa [hdest, hsource, hsrc] at hat
  cases runs with
  | nil => cases hnext
  | cons next rest =>
    rw [getElem?_zero_flatMap_fills rest (hruns next List.mem_cons_self)] at hnext
    obtain ⟨hdest, hsource, hsrc⟩ := Fill.mk.inj (Option.some.inj hnext)
    exact ⟨next, rest, rfl, hsource.symm, hdest.symm, hsrc.symm⟩

/-- Runs that are merged as far as they go are determined by their elements. -/
theorem Maximal.eq_of_fills {runs runs' : List Run} (hmax : Maximal runs) (hmax' : Maximal runs')
    (hpos : ∀ r ∈ runs, 0 < r.length) (hpos' : ∀ r ∈ runs', 0 < r.length)
    (h : runs.flatMap fills = runs'.flatMap fills) : runs = runs' := by
  induction runs generalizing runs' with
  | nil =>
    cases runs' with
    | nil => rfl
    | cons r' runs' =>
      have hfirst := getElem?_zero_flatMap_fills runs' (hpos' r' List.mem_cons_self)
      rw [← h] at hfirst
      cases hfirst
  | cons r runs ih =>
    have hr := getElem?_zero_flatMap_fills runs (hpos r List.mem_cons_self)
    cases runs' with
    | nil =>
      rw [h] at hr
      cases hr
    | cons r' runs' =>
      rw [h, getElem?_zero_flatMap_fills runs' (hpos' r' List.mem_cons_self)] at hr
      have hstart : r'.dest = r.dest ∧ r'.source = r.source ∧ r'.src = r.src :=
        Fill.mk.inj (Option.some.inj hr)
      have hrest := fun next hnext => hpos next (List.mem_cons_of_mem r hnext)
      have hrest' := fun next hnext => hpos' next (List.mem_cons_of_mem r' hnext)
      rcases Nat.lt_trichotomy r.length r'.length with hlt | hlength | hlt
      · obtain ⟨next, rest, rfl, hadjoins⟩ := exists_adjoins_of_lt hrest hstart hlt h
        exact absurd hadjoins (List.isChain_cons_cons.mp hmax).1
      · obtain ⟨hdest, hsource, hsrc⟩ := hstart
        have heq : r = r' := Run.mk.injEq .. ▸ ⟨hdest.symm, hlength, hsource.symm, hsrc.symm⟩
        subst heq
        rw [List.flatMap_cons, List.flatMap_cons] at h
        have hruns := ih (List.isChain_cons.mp hmax).2 (List.isChain_cons.mp hmax').2 hrest hrest'
          (List.append_cancel_left h)
        rw [hruns]
      · have hstart' : r.dest = r'.dest ∧ r.source = r'.source ∧ r.src = r'.src :=
          ⟨hstart.1.symm, hstart.2.1.symm, hstart.2.2.symm⟩
        obtain ⟨next, rest, rfl, hadjoins⟩ := exists_adjoins_of_lt hrest' hstart' hlt h.symm
        exact absurd hadjoins (List.isChain_cons_cons.mp hmax').1

end Run

/-! ## Rows of a slab -/

namespace Ghost

/-- An odometer of these widths shows these offsets one after the other, and they are all combinations
below the widths, each once. -/
structure Turns (widths : List Nat) (turns : List (List Nat)) : Prop where
  nodup : turns.Nodup
  mem_iff : ∀ offsets, offsets ∈ turns ↔ Grid.Within widths offsets
  forRows_eq : ∀ {σ : Type} (visit : List Nat → σ → Except Fault σ) (state : σ),
    forRows widths visit state = turns.foldlM (fun state offsets => visit offsets state) state

theorem turns_cells {widths : List Nat} (hwidths : ∀ width ∈ widths, 0 < width) :
    Turns widths (Grid.cells widths) where
  nodup := Grid.nodup_cells widths
  mem_iff _ := Grid.mem_cells
  forRows_eq := forRows_eq_foldlM hwidths

/-- The rows of the slab in a direction, one for each turn of the odometer. Without a slab there are
none. -/
def RowsOf (d : ColoringDefinition) (parts : List IndexColoring) (me : IndexColoring)
    (position : List Nat) (direction : Direction) (rows : List Run) : Prop :=
  ∃ source nb slab, neighbor d position direction = .ok source ∧ parts[source]? = some nb ∧
    Span.slab me nb direction = .ok slab ∧
      match slab with
      | none => rows = []
      | some spans => ∃ turns, Turns (spans.tail.map (·.width)) turns ∧
          turns.mapM (row me nb source spans) = .ok rows

theorem rowsOf_rows {coloring : Coloring} {space : Nat} {d : ColoringDefinition}
    {parts : List IndexColoring} (h : coloring.HasSpace space d parts) {color : Nat}
    (hcolor : color < parts.length) {direction : Direction}
    (hdirection : direction.length = d.axes.length) :
    RowsOf d parts parts[color] (Grid.position d.axisColors color) direction
      (Slab.rows d.axes (Grid.position d.axisColors color) direction) := by
  obtain ⟨hsource, hneighbors⟩ := neighbors_of_direction h hcolor hdirection
  have hneighbor := neighbor_eq_ok h (Grid.within_position h.valid.colors_pos color) hdirection
  refine ⟨_, _, _, hneighbor, List.getElem?_eq_getElem hsource, hneighbors.slab_eq_ok, ?_⟩
  rw [Slab.rows]
  by_cases hfull : (Slab.spans d.axes (Grid.position d.axisColors color) direction).any
      (·.width == 0) = true
  · simp only [if_pos hfull]
  · simp only [if_neg hfull]
    refine ⟨_, turns_cells (widths_pos hfull), Checked.mapM_eq_ok fun offsets hoffsets => ?_⟩
    exact hneighbors.row_eq_ok hfull hoffsets

/-! ## Runs of a color -/

/-- The runs of a color are the rows of all its slabs, merged as far as they go, and there is no other
such list with the same elements. -/
theorem intervals_merge_rows {spec : ColoringSpec} (hrep : spec.Representable) {coloring : Coloring}
    (hof : Coloring.ofSpec spec = .ok coloring) {space color : Nat}
    (hspace : space < coloring.indexSpaces) (hcolor : color < coloring.colors) :
    ∃ d parts me position runs rows, spec.indexSpaces[space]? = some d ∧
      coloring.parts[space]? = some parts ∧ parts[color]? = some me ∧
      Grid.coords d.axisColors color = .ok position ∧ intervals coloring space color = .ok runs ∧
      List.Forall₂ (RowsOf d parts me position) (Direction.all d.dimension) rows ∧
      runs.flatMap Run.fills = rows.flatten.flatMap Run.fills ∧
      (∀ r ∈ runs, 0 < r.length) ∧ Run.Maximal runs ∧
      ∀ others, (∀ r ∈ others, 0 < r.length) → Run.Maximal others →
        others.flatMap Run.fills = runs.flatMap Run.fills → others = runs := by
  obtain ⟨d, parts, h⟩ := Coloring.exists_hasSpace hrep hof hspace
  have hspec := (Coloring.realizes_of_ofSpec hrep.toFits hof).2.spec_eq
  rw [← h.colors_eq] at hcolor
  have hpos : ∀ r ∈ runsOf d color, 0 < r.length := fun r hr => length_pos_of_mem_runsOf h.valid hr
  have hmax : Run.Maximal (runsOf d color) := Run.maximal_joinAll _
  refine ⟨d, parts, _, _, runsOf d color,
    (Direction.all d.axes.length).map (Slab.rows d.axes (Grid.position d.axisColors color)),
    hspec ▸ h.definition, h.records, List.getElem?_eq_getElem hcolor,
    Grid.coords_eq_ok h.valid.colors_pos color, intervals_eq_ok h hcolor, ?_, ?_, hpos, hmax, ?_⟩
  · rw [h.valid.dimension_eq, List.forall₂_map_right_iff, List.forall₂_same]
    exact fun direction hdirection => rowsOf_rows h hcolor (Direction.mem_all.mp hdirection).1
  · exact Run.fills_joinAll _
  · exact fun others hothers hmax' heq => hmax'.eq_of_fills hmax hothers hpos heq

/-- A block that is alone on axis 0 takes two rows of four slots from the block above it, as one run. -/
theorem intervals_merge_rows_one_by_two :
    let spec : ColoringSpec := ⟨[⟨[1, 2], [4, 4], [0, 2], [0, 0], [false, false]⟩]⟩
    spec.Representable ∧ ∃ coloring, Coloring.ofSpec spec = .ok coloring ∧
      0 < coloring.indexSpaces ∧ 0 < coloring.colors ∧ intervals coloring 0 0 = .ok [⟨8, 8, 1, 8⟩] ∧
      ∃ d parts me position runs rows, spec.indexSpaces[0]? = some d ∧
        coloring.parts[0]? = some parts ∧ parts[0]? = some me ∧
        Grid.coords d.axisColors 0 = .ok position ∧ intervals coloring 0 0 = .ok runs ∧
        List.Forall₂ (RowsOf d parts me position) (Direction.all d.dimension) rows ∧
        runs.flatMap Run.fills = rows.flatten.flatMap Run.fills ∧
        (∀ r ∈ runs, 0 < r.length) ∧ Run.Maximal runs ∧
        ∀ others, (∀ r ∈ others, 0 < r.length) → Run.Maximal others →
          others.flatMap Run.fills = runs.flatMap Run.fills → others = runs := by
  intro spec
  have hrep : spec.Representable := by decide
  refine ⟨hrep, _, rfl, by decide, by decide, by decide +kernel, ?_⟩
  exact intervals_merge_rows hrep rfl (by decide) (by decide)

end Ghost

end HaloMesh
