-- SUMMARY: The plans that a group derives from one coloring name the same runs on both ends.
import HaloMesh.Proofs.CopyPlan.Agreement

/-!
# Plans in concert

All ranks of a group derive their plans from one coloring, each for its own color. Then a color expects of
another exactly the runs that the other sends to it, and takes no value from a slot that an exchange fills.
The numbers of the coloring may be too large for some of its plans to be derived. Those that were derived
are in concert all the same.
-/

namespace HaloMesh

namespace CopyPlan

/-- The plans of a group name the same runs on both ends, and take no value from a slot that is filled. -/
structure Concert (n tag : Nat) (plan : Nat → CopyPlan) : Prop extends Family n tag plan where
  paired : Paired n plan
  runs_eq : ∀ r < n, ∀ entry ∈ (plan r).recv, (plan entry.1).sendsTo r = entry.2
  src_kept : ∀ r < n, ∀ entry ∈ (plan r).recv, ∀ run ∈ entry.2, ∀ fill ∈ run.fills,
    fill.src ∉ (plan entry.1).runs.flatMap Run.dests

/-- No color finds that another expects something else of it. -/
theorem Concert.agrees {n tag : Nat} {plan : Nat → CopyPlan} (h : Concert n tag plan) {r dest : Nat}
    (hr : r < n) (hdest : dest < n) : Agrees plan r dest := by
  rw [Agrees, (h.sound dest hdest).filter_runs, RunTable.runsOf]
  cases hlookup : (plan dest).recv.lookup r with
  | some runs =>
    rw [h.runs_eq dest hdest (r, runs) (RunTable.mem_of_lookup hlookup)]
    rfl
  | none =>
    have hsource : r ∉ (plan dest).sources := RunTable.lookup_eq_none_iff.mp hlookup
    have hnone := RunTable.lookup_eq_none_iff.mpr (mt (h.paired r hr dest hdest).mp hsource)
    rw [sendsTo, RunTable.runsOf, hnone]

/-! ## Plans of one coloring -/

section
variable {coloring : Coloring} {space : Nat} {plan : Nat → CopyPlan} {spec : ColoringSpec}

/-- The plans of all colors stem from one definition. -/
theorem exists_planOf (hof : Coloring.ofSpec spec = .ok coloring)
    (hplan : ∀ r < coloring.colors, ofColoring coloring space r = .ok (plan r)) {r : Nat}
    (hr : r < coloring.colors) :
    ∃ d, d.Valid ∧ coloring.colors = d.axisColors.prod ∧
      ∃ part : Nat → IndexColoring, ∀ s < coloring.colors, plan s = planOf space d (part s) s := by
  obtain ⟨d, h⟩ := Coloring.exists_stores hof (space_lt_of_ofColoring (hplan r hr))
  exact ⟨d, h.valid, h.colors_eq, _, fun s hs => (eq_planOf_of_ofColoring h (hplan s hs)).2.1⟩

theorem concert_of_ofColoring (hof : Coloring.ofSpec spec = .ok coloring)
    (hplan : ∀ r < coloring.colors, ofColoring coloring space r = .ok (plan r)) :
    Concert coloring.colors (tagOf space) plan := by
  have hfamily := family_of_ofColoring (fun _ _ => hof) (fun _ _ => rfl) hplan
  refine { hfamily with paired := ?_, runs_eq := ?_, src_kept := ?_ }
  · intro r hr s hs
    obtain ⟨d, hvalid, hcolors, part, hpart⟩ := exists_planOf hof hplan hr
    rw [hpart r hr, hpart s hs, mem_destinations_iff hvalid, mem_sources_planOf, ← hcolors,
      and_iff_right hs]
  · intro r hr entry hentry
    obtain ⟨d, hvalid, hcolors, part, hpart⟩ := exists_planOf hof hplan hr
    have hsource := (hfamily.sound r hr).source_lt _ (List.mem_map_of_mem hentry)
    rw [hpart r hr] at hentry
    rw [hpart _ hsource, sendsTo_eq_sentTo hvalid (hcolors ▸ hr), (eq_of_mem_recv hentry).1]
  · intro r hr entry hentry run hrun fill hfill
    obtain ⟨d, hvalid, -, part, hpart⟩ := exists_planOf hof hplan hr
    have hsource := (hfamily.sound r hr).source_lt _ (List.mem_map_of_mem hentry)
    rw [hpart r hr] at hentry
    rw [(eq_of_mem_recv hentry).1] at hrun
    rw [hpart _ hsource]
    exact src_not_mem_dests_planOf hvalid _ hrun hfill

end

/-! ## Exchanges -/

section
variable {n tag : Nat} {plan : Nat → CopyPlan} {info : Nat → FieldInfo} {region : Nat → Region}

/-- What the sources of a color reply when all ranks refresh a field. -/
def replied (plan : Nat → CopyPlan) (info : Nat → FieldInfo) (region : Nat → Region) (r : Nat) :
    List (Option Bytes) :=
  (plan r).repliesWith (info r).typeSize fun s => delivered plan info region s r

/-- All ranks refresh a field, with elements of sizes of their own. -/
theorem Concert.refresh_completes (h : Concert n tag plan)
    (haccepts : ∀ r < n, (plan r).Accepts (info r) (region r))
    (hstored : ∀ r < n,
      ((region r).stored (info r)).length = (region r).length * (info r).typeSize) :
    ∃ data : Nat → Bytes, Completes n (fun r => ((plan r).refresh (info r)).run.run (region r))
        (fun r => (ending (((plan r).remoteSources.zip (replied plan info region r)).findSome?
            (lack? (info r).typeSize)),
          ((region r).ensured (info r)).setBytes (info r).field (data r))) ∧
      ∀ r < n, (data r).length = (plan r).slots * (info r).typeSize ∧
        (plan r).Exchanged (info r).typeSize (replied plan info region r)
          (((region r).stored (info r)).element (info r).typeSize)
          ((data r).element (info r).typeSize) := by
  have hone : ∀ r < n, ∃ data,
      Program.Performs r (((plan r).refresh (info r)).run.run (region r))
        (((plan r).outgoing (delivered plan info region r)).map (Parcel.sent r) ++
          ((plan r).incoming fun s => delivered plan info region s r).map (Parcel.received r))
        (.done (ending (((plan r).remoteSources.zip (replied plan info region r)).findSome?
            (lack? (info r).typeSize)),
          ((region r).ensured (info r)).setBytes (info r).field data)) ∧
      data.length = (plan r).slots * (info r).typeSize ∧
        (plan r).Exchanged (info r).typeSize (replied plan info region r)
          (((region r).stored (info r)).element (info r).typeSize)
          (data.element (info r).typeSize) := by
    intro r hr
    have hbytes := (haccepts r hr).admits.room.le
    have hslots := hstored r hr
    rw [(haccepts r hr).length_eq] at hbytes hslots
    obtain ⟨mid, hcopies, hexchanged⟩ := (h.sound r hr).exists_exchanged hbytes hslots
    have hown : CommState.Yields r (((plan r).recv.runsOf (plan r).color).forM
        (copyOwn (info r).typeSize)) ((region r).stored (info r)) [] () mid := by
      rw [CommState.Yields, copyOwn_eq_done hcopies]
      exact .refl _
    have hexchange := (h.sound r hr).exchange_receives hbytes hslots hown
      fun s => delivered plan info region s r
    exact ⟨_, (haccepts r hr).refresh_performs hexchange, hexchanged _ (List.length_map _)⟩
  choose! data hperforms hdata using hone
  exact ⟨data, .of_round (h.matches_parcels h.paired (delivered plan info region)) hperforms, hdata⟩

end

end CopyPlan

end HaloMesh
