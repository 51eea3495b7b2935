-- SUMMARY: Plans that were derived from a coloring: their tables are in order and their runs lie in storage.
import HaloMesh.Proofs.Ghost.Balance
import HaloMesh.Proofs.Ghost.Derived

/-!
# Sound plans

Whatever coloring a plan was derived from, its tables list colors in order, its runs lie in the
storage of the color, and no message is longer than that storage. That is all that verification and
exchange need of one plan. How the plans of different colors fit together is another matter.
-/

namespace HaloMesh

namespace CopyPlan

/-- There are runs, none is empty, and together they are not longer than the storage. -/
structure Transferable (slots : Nat) (runs : List Run) : Prop where
  nonempty : runs ≠ []
  length_pos : ∀ r ∈ runs, 0 < r.length
  total_le : Run.totalLength runs ≤ slots

theorem Transferable.total_pos {slots : Nat} {runs : List Run} (h : Transferable slots runs) :
    0 < Run.totalLength runs := by
  obtain ⟨r, rest, rfl⟩ := List.exists_cons_of_ne_nil h.nonempty
  exact Nat.add_pos_left (h.length_pos r (by simp)) _

/-- The tables of a plan for a group of `n` colors are in order, and their runs lie in storage. -/
structure Sound (p : CopyPlan) (n : Nat) : Prop where
  slots_lt : p.slots < Word.limit
  source_lt : ∀ source ∈ p.sources, source < n
  destination_lt : ∀ dest ∈ p.destinations, dest < n
  sources_increasing : p.sources.Pairwise (· < ·)
  destinations_increasing : p.destinations.Pairwise (· < ·)
  received : ∀ entry ∈ p.recv, Transferable p.slots entry.2
  sent : ∀ entry ∈ p.send, Transferable p.slots entry.2
  dest_stop_le : ∀ entry ∈ p.recv, ∀ r ∈ entry.2, r.dest + r.length ≤ p.slots
  src_stop_le : ∀ entry ∈ p.send, ∀ r ∈ entry.2, r.src + r.length ≤ p.slots
  own_stop_le : ∀ r ∈ p.recv.runsOf p.color, r.src + r.length ≤ p.slots
  apart : p.runs.Pairwise Run.Apart
  /-- No run takes a value of the color itself from a slot that one of them fills. -/
  own_kept : ∀ r ∈ p.recv.runsOf p.color, ∀ fill ∈ r.fills, fill.src ∉ p.runs.flatMap Run.dests
  filter_runs : ∀ source, p.runs.filter (·.source == source) = p.recv.runsOf source

/-- What a color sends is taken from its storage. -/
theorem Sound.src_stop_le_of_mem_sendsTo {p : CopyPlan} {n : Nat} (h : p.Sound n) {dest : Nat} {r : Run}
    (hr : r ∈ p.sendsTo dest) : r.src + r.length ≤ p.slots := by
  obtain ⟨runs, hruns, hmem⟩ := RunTable.mem_of_mem_runsOf hr
  exact h.src_stop_le _ hruns r hmem

/-! ## Plans of a valid definition -/

section
variable {space : Nat} {d : ColoringDefinition} {color : Nat} {part : IndexColoring}

theorem eq_of_mem_recv {entry : Nat × List Run} (h : entry ∈ (planOf space d part color).recv) :
    entry.2 = sentTo d entry.1 color ∧ sentTo d entry.1 color ≠ [] := by
  obtain ⟨source, hsource, rfl⟩ := List.mem_map.mp h
  refine ⟨rfl, fun hnil => sentTo_eq_nil_iff.mp hnil (Ghost.mem_ordered.mp hsource)⟩

theorem eq_of_mem_send {entry : Nat × List Run} (h : entry ∈ (planOf space d part color).send) :
    entry.2 = sentTo d color entry.1 ∧ sentTo d color entry.1 ≠ [] := by
  obtain ⟨dest, hdest, rfl⟩ := List.mem_map.mp h
  refine ⟨rfl, ?_⟩
  simpa using (List.mem_filter.mp hdest).2

theorem transferable_sentTo (hd : d.Valid) {slots source dest : Nat}
    (hruns : sentTo d source dest ≠ [])
    (hle : Run.totalLength (sentTo d source dest) ≤ slots) :
    Transferable slots (sentTo d source dest) where
  nonempty := hruns
  length_pos _ hr := Ghost.length_pos_of_mem_runsOf hd (mem_runsOf_of_mem_sentTo hr).1
  total_le := hle

/-- The slots that the runs of a plan fill are those that are copied to. -/
theorem mem_dests_planOf (hd : d.Valid) (part : IndexColoring) {slot : Nat} :
    slot ∈ (planOf space d part color).runs.flatMap Run.dests ↔
      slot ∈ (Ghost.fillsAt d.axes (Grid.position d.axisColors color)).map (·.dest) := by
  rw [← Ghost.flatMap_fills_runsOf hd, List.map_flatMap]
  simp only [List.mem_flatMap, Run.map_dest_fills]
  exact exists_congr fun r => and_congr_left fun _ => RunTable.mem_flatMap_bySource

/-- A value is taken from a slot that the plan of its color does not fill. -/
theorem src_not_mem_dests_planOf (hd : d.Valid) (part : IndexColoring) {source : Nat} {r : Run}
    (hr : r ∈ sentTo d source color) {fill : Fill} (hfill : fill ∈ r.fills) :
    fill.src ∉ (planOf space d part source).runs.flatMap Run.dests := by
  obtain ⟨hrun, rfl⟩ := mem_runsOf_of_mem_sentTo hr
  have hmem : fill ∈ Ghost.fillsAt d.axes (Grid.position d.axisColors color) :=
    Ghost.flatMap_fills_runsOf hd color ▸ List.mem_flatMap.mpr ⟨r, hrun, hfill⟩
  rw [mem_dests_planOf hd, ← Run.source_of_mem_fills hfill]
  exact Ghost.src_not_mem_dests hd hmem

/-- The runs that wrap onto the color itself. -/
theorem runsOf_planOf (part : IndexColoring) :
    (planOf space d part color).recv.runsOf color = sentTo d color color :=
  RunTable.runsOf_bySource _ _

theorem sound_planOf (hd : d.Valid) (hcolor : color < d.axisColors.prod)
    (hpart : part.extents.prod = Ghost.slotsOf d color) (hlt : part.extents.prod < Word.limit) :
    (planOf space d part color).Sound d.axisColors.prod where
  slots_lt := hlt
  source_lt _ hsource := lt_of_sentTo hd (mem_sources_planOf.mp hsource)
  destination_lt _ hdest := ((mem_destinations_iff hd).mp hdest).1
  sources_increasing := by
    rw [sources, planOf, RunTable.keys_bySource]
    exact Ghost.pairwise_ordered _
  destinations_increasing := by
    rw [destinations_planOf]
    exact (Ghost.pairwise_ordered _).filter _
  received entry hentry := by
    obtain ⟨hruns, hne⟩ := eq_of_mem_recv hentry
    have hle := totalLength_sentTo_le hd entry.1 color
    exact hruns ▸ transferable_sentTo hd hne (hle.trans_eq hpart.symm)
  sent entry hentry := by
    obtain ⟨hruns, hne⟩ := eq_of_mem_send hentry
    have hdest := ((mem_destinations_iff hd).mp (List.mem_map_of_mem hentry)).1
    have hle := Ghost.totalLength_sentTo_le_source hd hcolor hdest
    exact hruns ▸ transferable_sentTo hd hne (hle.trans_eq hpart.symm)
  dest_stop_le entry hentry r hr := by
    rw [(eq_of_mem_recv hentry).1] at hr
    exact (bounds_of_mem_sentTo hd hr).1.trans_eq hpart.symm
  src_stop_le entry hentry r hr := by
    rw [(eq_of_mem_send hentry).1] at hr
    exact (bounds_of_mem_sentTo hd hr).2.trans_eq hpart.symm
  own_stop_le r hr := (bounds_of_mem_sentTo hd (runsOf_planOf part ▸ hr)).2.trans_eq hpart.symm
  apart := RunTable.pairwise_flatMap_bySource Run.Apart.symm (Ghost.pairwise_runsOf hd color)
  own_kept r hr _ hfill := src_not_mem_dests_planOf hd part (runsOf_planOf part ▸ hr) hfill
  filter_runs source :=
    (filter_runs_eq_sentTo part color source).trans (RunTable.runsOf_bySource _ _).symm

end

/-! ## Plans of a coloring -/

section
variable {coloring : Coloring} {space : Nat} {d : ColoringDefinition} {color : Nat}

theorem gives_sendTable (h : coloring.Stores space d) (color : Nat) :
    Checked.Gives (sendTable coloring space color) (sendOf d color) := by
  have hfilter : sendOf d color = ((Ghost.neighborsOf d color).map fun dest =>
      (dest, sentTo d color dest)).filter fun entry => !entry.2.isEmpty := by
    rw [List.filter_map]
    rfl
  rw [hfilter]
  refine (Ghost.gives_neighbors h color).bind (Checked.Gives.bind (.mapM fun dest hdest => ?_) (.ok _))
  have hlt := Ghost.lt_of_mem_neighborsOf h.valid hdest
  rw [← h.colors_eq] at hlt
  exact Checked.Gives.bind ((Ghost.gives_intervals h hlt).bind (.ok _)) (.ok _)

theorem space_lt_of_ofColoring {p : CopyPlan} (hp : ofColoring coloring space color = .ok p) :
    space < coloring.indexSpaces := by
  by_contra hspace
  rw [ofColoring, if_neg hspace] at hp
  cases hp

/-- A plan that was derived is that of the position of the color. -/
theorem eq_planOf_of_ofColoring (h : coloring.Stores space d) {p : CopyPlan}
    (hp : ofColoring coloring space color = .ok p) : color < coloring.colors ∧
      p = planOf space d (IndexColoring.recordAt d.axes (Grid.position d.axisColors color)) color ∧
        p.slots < Word.limit := by
  unfold ofColoring at hp
  split at hp
  · replace hp := Checked.liftM_eq_ok_iff.mp hp
    simp only [derive, Checked.bind_eq_ok_iff] at hp
    obtain ⟨received, hreceived, send, hsend, parts, hparts, part, hpart, slots, hslots, -, -, hp⟩ := hp
    cases (fetch_eq_ok_iff.mpr h.records).symm.trans hparts
    have hcolor : color < coloring.colors := by
      have hlt := (List.getElem?_eq_some_iff.mp (fetch_eq_ok_iff.mp hpart)).1
      rwa [Coloring.length_recordsOf] at hlt
    cases (Ghost.fetch_recordsOf hcolor).symm.trans hpart
    obtain ⟨rfl, hlt⟩ := Word.eq_prod_of_product hslots
    cases Ghost.gives_intervals h hcolor _ hreceived
    cases gives_sendTable h color _ hsend
    cases hp
    exact ⟨hcolor, rfl, hlt⟩
  · cases hp

/-- Every plan that was derived is sound. -/
theorem sound_of_ofColoring {spec : ColoringSpec} (hof : Coloring.ofSpec spec = .ok coloring)
    {p : CopyPlan} (hp : ofColoring coloring space color = .ok p) : p.Sound coloring.colors := by
  obtain ⟨d, h⟩ := Coloring.exists_stores hof (space_lt_of_ofColoring hp)
  obtain ⟨hcolor, rfl, hlt⟩ := eq_planOf_of_ofColoring h hp
  rw [h.colors_eq] at hcolor ⊢
  refine sound_planOf h.valid hcolor ?_ hlt
  rw [IndexColoring.extents_recordAt]
  rfl

end

end CopyPlan

end HaloMesh
