-- SUMMARY: Verification finds exactly the plans that do not fit together, and plans that pass it exchange without error.
import HaloMesh.Proofs.Comm.Trace
import HaloMesh.Proofs.CopyPlan.Arrivals

/-!
# Verified plans

The plans of a group may stem from different colorings. Verification compares numbers of runs and slots
only, so plans that pass it need not list the same runs. But then every message has the length that its
receiver expects and goes to a rank that waits for it, whatever the runs are, so a refresh succeeds on
every rank.
-/

namespace HaloMesh

namespace CopyPlan

/-- When all ranks refresh fields with one element size, every interleaving ends, each rank succeeds,
and it has received one message from each of its other sources, with the length that it expects. -/
def Delivers (n : Nat) (plan : Nat → CopyPlan) : Prop :=
  ∀ (size : Nat) (info : Nat → FieldInfo) (region : Nat → Region) (data : Nat → Bytes),
    (∀ r < n, (info r).typeSize = size) → (∀ r < n, (plan r).Serves (info r) (region r) (data r)) →
    let group := Group.start ((List.range n).map fun r =>
      ((plan r).refresh (info r)).run.run (region r))
    ∃ region' : Nat → Region, group.Settles ((List.range n).map fun r => (.ok (), region' r)) ∧
      ∀ es final, Group.Trace group es final → final.results?.isSome → ∀ r < n,
        (Group.receipts r es).map (fun (channel, message) => (channel, message.length)) =
          (plan r).remoteSources.map fun (source, runs) =>
            (⟨source, r, (plan r).tag⟩, Run.totalLength runs * size)

section
variable {n tag : Nat} {plan : Nat → CopyPlan}

/-! ## Agreement of two colors -/

theorem Sound.recv_runsOf_of_mem {p : CopyPlan} (h : p.Sound n) {entry : Nat × List Run}
    (hentry : entry ∈ p.recv) : p.recv.runsOf entry.1 = entry.2 := by
  rw [RunTable.runsOf, RunTable.lookup_of_mem (h.sources_increasing.imp Nat.ne_of_lt) hentry]
  rfl

/-- Colors that agree send to those that wait for them. -/
theorem Family.paired (h : Family n tag plan) (hagrees : ∀ r < n, ∀ s < n, Agrees plan r s) :
    Paired n plan := by
  intro r hr s hs
  constructor
  · intro hsend
    by_contra hsource
    exact h.not_agrees_of_mem hr hsource hsend (hagrees r hr s hs)
  · intro hsource
    by_contra hsend
    have hlookup : (plan r).send.lookup s = none := RunTable.lookup_eq_none_iff.mpr hsend
    obtain ⟨entry, hentry, rfl⟩ := List.mem_map.mp hsource
    have heq := hagrees entry.1 hr s hs
    rw [Agrees, (h.sound s hs).filter_runs, (h.sound s hs).recv_runsOf_of_mem hentry, sendsTo,
      RunTable.runsOf, hlookup] at heq
    exact ((h.sound s hs).received _ hentry).nonempty (Summary.total_eq_empty_iff.mp heq.symm)

/-- A message holds as many elements as its receiver expects, of the size that its sender uses. -/
theorem Family.length_delivered (h : Family n tag plan) {info : Nat → FieldInfo} {region : Nat → Region}
    (hlength : ∀ r < n, ((region r).stored (info r)).length = (plan r).slots * (info r).typeSize)
    {r : Nat} (hr : r < n) {entry : Nat × List Run} (hentry : entry ∈ (plan r).recv)
    (hagrees : Agrees plan entry.1 r) :
    (delivered plan info region entry.1 r).length =
      Run.totalLength entry.2 * (info entry.1).typeSize := by
  have hsource := (h.sound r hr).source_lt _ (List.mem_map_of_mem hentry)
  have htotal : Run.totalLength ((plan entry.1).sendsTo r) = Run.totalLength entry.2 := by
    have heq := congrArg Summary.elements hagrees
    rw [(h.sound r hr).filter_runs, (h.sound r hr).recv_runsOf_of_mem hentry] at heq
    exact heq
  rw [delivered, carried, ← htotal]
  refine Run.length_message fun run hrun => ?_
  exact Run.length_taken ((h.sound entry.1 hsource).src_stop_le_of_mem_sendsTo hrun)
    fun _ hslot => Bytes.length_element (hlength _ hsource) hslot

/-! ## Groups -/

/-- Plans that agree exchange without error. -/
theorem Family.delivers (h : Family n tag plan) (hagrees : ∀ r < n, ∀ s < n, Agrees plan r s) :
    Delivers n plan := by
  intro size info region data hsize hserves group
  have hstored : ∀ r < n,
      ((region r).stored (info r)).length = (region r).length * (info r).typeSize := fun r hr => by
    rw [(hserves r hr).holds.stored_eq, (hserves r hr).holds.length_eq]
  obtain ⟨out, hout⟩ := h.refresh_ends (fun r hr => (hserves r hr).accepts)
    (fun r hr => (hserves r hr).room) hstored
  have hlengths : ∀ r < n, ∀ entry ∈ (plan r).remoteSources,
      (delivered plan info region entry.1 r).length = Run.totalLength entry.2 * size := by
    intro r hr entry hentry
    have hmem : entry ∈ (plan r).recv := List.mem_of_mem_filter hentry
    have hsource := (h.sound r hr).source_lt _ (List.mem_map_of_mem hmem)
    rw [← hsize _ hsource]
    refine h.length_delivered (fun r hr => ?_) hr hmem (hagrees entry.1 hsource r hr)
    rw [hstored r hr, (hserves r hr).length_eq]
  have hok : ∀ r < n, (out r).1 = .ok () := by
    intro r hr
    refine (hout r hr).2.2 fun entry hentry => ?_
    rw [hsize r hr]
    exact hlengths r hr entry hentry
  have hmatches := h.matches_parcels (h.paired hagrees) (delivered plan info region)
  refine ⟨fun r => ((region r).ensured (info r)).setBytes (info r).field (out r).2, ?_, ?_⟩
  · refine (Completes.of_round hmatches fun r hr => ?_).settles
    rw [← hok r hr]
    exact (hout r hr).1
  · intro es final htrace hended r hr
    rw [Group.receipts_of_round hmatches (fun r hr => (hout r hr).1) htrace hended hr, List.map_map,
      incoming, Parcel.toPeers_some, List.map_map, List.map_map]
    refine List.map_congr_left fun entry hentry => ?_
    exact congrArg (Prod.mk _) (hlengths r hr entry hentry)

/-- Plans that were derived from colorings with as many colors as the group has ranks. -/
theorem family_of_ofColoring {space : Nat} {spec : Nat → ColoringSpec} {coloring : Nat → Coloring}
    (hof : ∀ r < n, Coloring.ofSpec (spec r) = .ok (coloring r))
    (hcolors : ∀ r < n, (coloring r).colors = n)
    (hplan : ∀ r < n, ofColoring (coloring r) space r = .ok (plan r)) :
    Family n (tagOf space) plan := by
  have hderived : ∀ r < n, ∃ d part, plan r = planOf space d part r := by
    intro r hr
    have hspace := space_lt_of_ofColoring (hplan r hr)
    obtain ⟨d, h⟩ := Coloring.exists_stores (hof r hr) hspace
    exact ⟨d, _, (eq_planOf_of_ofColoring h (hplan r hr)).2.1⟩
  constructor
  · intro r hr
    obtain ⟨d, part, hp⟩ := hderived r hr
    rw [hp]
    rfl
  · intro r hr
    obtain ⟨d, part, hp⟩ := hderived r hr
    rw [hp]
    rfl
  · intro r hr
    have hsound := sound_of_ofColoring (hof r hr) (hplan r hr)
    rwa [hcolors r hr] at hsound

end

/-- Every rank of a group derives a plan from a coloring of its own. When all of them verify their
plans, every interleaving ends. A rank succeeds exactly if it would send every rank as many runs and
slots as that rank expects from it, and otherwise reports the first rank that expects something else,
or, if there is none, the first one that expects nothing. If all ranks succeed, then all later
refreshes do. -/
theorem verify_settles {n space : Nat} {spec : Nat → ColoringSpec} {coloring : Nat → Coloring}
    {plan : Nat → CopyPlan} (hof : ∀ r < n, Coloring.ofSpec (spec r) = .ok (coloring r))
    (hcolors : ∀ r < n, (coloring r).colors = n)
    (hplan : ∀ r < n, ofColoring (coloring r) space r = .ok (plan r)) :
    ∃ result : Nat → Except Failure Unit,
      (Group.start ((Member.all n).map fun me => ((plan me.rank).verify me).run)).Settles
        ((List.range n).map result) ∧
      (∀ r < n, Verdict n plan r (result r) ∧ (result r = .ok () ↔ ∀ dest < n, Agrees plan r dest)) ∧
      ((∀ r < n, result r = .ok ()) → Delivers n plan) := by
  have hfamily := family_of_ofColoring hof hcolors hplan
  have hlist : 24 * n ≤ Word.bufferLimit := by
    rcases Nat.eq_zero_or_pos n with rfl | hpos
    · exact Nat.zero_le _
    · have hrecords := Coloring.footprint_mul_colors_le (hof 0 hpos)
      rw [hcolors 0 hpos] at hrecords
      exact Nat.le_trans (Nat.mul_le_mul_right _ (by decide)) hrecords
  have hexact : ∀ r < n, verdict n plan r = .ok () ↔ ∀ dest < n, Agrees plan r dest :=
    fun r hr => hfamily.eq_ok_iff hr (hfamily.verdict_spec hr)
  refine ⟨verdict n plan, ?_, fun r hr => ⟨hfamily.verdict_spec hr, hexact r hr⟩, fun hok => ?_⟩
  · rw [Member.all, List.map_map]
    exact Completes.settles (hfamily.verify_ends hlist)
  · exact hfamily.delivers fun r hr => (hexact r hr).mp (hok r hr)

/-- Two ranks that derive their plans from rings of four and of six indices. -/
theorem verify_settles_on_two_rings :
    let spec : Nat → ColoringSpec := fun r => ⟨[⟨[2], [4 + 2 * r], [1], [0], [true]⟩]⟩
    ∃ (coloring : Nat → Coloring) (plan : Nat → CopyPlan),
      (∀ r < 2, Coloring.ofSpec (spec r) = .ok (coloring r)) ∧ (∀ r < 2, (coloring r).colors = 2) ∧
      (∀ r < 2, ofColoring (coloring r) 0 r = .ok (plan r)) ∧
      ∃ result : Nat → Except Failure Unit,
        (Group.start ((Member.all 2).map fun me => ((plan me.rank).verify me).run)).Settles
          ((List.range 2).map result) ∧
        (∀ r < 2, Verdict 2 plan r (result r) ∧ (result r = .ok () ↔ ∀ dest < 2, Agrees plan r dest)) ∧
        (∀ r < 2, result r = .ok ()) ∧ Delivers 2 plan := by
  intro spec
  let d : Nat → ColoringDefinition := fun r => ⟨[2], [4 + 2 * r], [1], [0], [true]⟩
  have hderived : ∀ r < 2, ∃ coloring plan, Coloring.ofSpec (spec r) = .ok coloring ∧
      coloring.colors = 2 ∧ ofColoring coloring 0 r = .ok plan ∧ (d r).Valid ∧
        ∃ part, plan = planOf 0 (d r) part r := by
    intro r hr
    have hrep : ∀ r < 2, (spec r).Representable := by decide
    have hof : ∀ r < 2, ∃ coloring, Coloring.ofSpec (spec r) = .ok coloring ∧
        coloring.spec = spec r ∧ coloring.colors = 2 ∧ 0 < coloring.indexSpaces := by
      intro r hr
      match r, hr with
      | 0, _ => exact ⟨_, rfl, rfl, rfl, by decide⟩
      | 1, _ => exact ⟨_, rfl, rfl, rfl, by decide⟩
    obtain ⟨coloring, hof, hspec, hcolors, hspace⟩ := hof r hr
    obtain ⟨d', parts, h⟩ := Coloring.exists_hasSpace (hrep r hr) hof hspace
    have hcolor : r < parts.length := h.colors_eq.trans hcolors ▸ hr
    have hd : d' = d r := by
      have hdefinition := h.definition
      rw [hspec] at hdefinition
      exact (Option.some.inj hdefinition).symm
    subst hd
    exact ⟨coloring, _, hof, hcolors, ofColoring_eq_plansOf h hcolor, h.valid, _, rfl⟩
  choose! coloring plan hof hcolors hplan hvalid part hpart using hderived
  have hagrees : ∀ r < 2, ∀ s < 2, Agrees plan r s := by
    have hsent : ∀ r < 2, ∀ s < 2,
        Summary.total (sentTo (d r) r s) = Summary.total (sentTo (d s) r s) := by decide
    intro r hr s hs
    rw [Agrees, hpart r hr, hpart s hs, sendsTo_eq_sentTo (hvalid r hr) hs, filter_runs_eq_sentTo]
    exact hsent r hr s hs
  obtain ⟨result, hsettles, hverdict, hdelivers⟩ := verify_settles hof hcolors hplan
  have hok : ∀ r < 2, result r = .ok () := fun r hr => (hverdict r hr).2.mpr (hagrees r hr)
  exact ⟨coloring, plan, hof, hcolors, hplan, result, hsettles, hverdict, hok, hdelivers hok⟩

end CopyPlan

end HaloMesh
