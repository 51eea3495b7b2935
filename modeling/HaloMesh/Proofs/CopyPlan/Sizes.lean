-- SUMMARY: Ranks that refresh fields of different element sizes: smaller elements are reported, larger ones are cut.
import HaloMesh.Proofs.CopyPlan.Concert
import HaloMesh.Proofs.CopyPlan.Frame

/-!
# Element sizes

All ranks of a group are to refresh the same field. If their elements have different sizes all the same,
then a source with smaller elements sends less than its receiver expects, and is reported. A source with
larger elements sends more, but what arrives is cut to the length that the receiver posted, so its message
passes for one of the expected length. The receiver then succeeds, and its ghosts hold the front of that
message. Between ranks with elements of one size every ghost is as its owner is.
-/

namespace HaloMesh

namespace CopyPlan

/-- What comes of a refresh on one rank of a group, after which its field holds `data`. -/
structure BySizes (plan : Nat → CopyPlan) (info : Nat → FieldInfo) (region : Nat → Region) (r : Nat)
    (result : Except Failure Unit) (data : Bytes) : Prop where
  /-- The rank succeeds if none of its other sources has smaller elements. -/
  ok_iff : result = .ok () ↔
    ∀ entry ∈ (plan r).remoteSources, (info r).typeSize ≤ (info entry.1).typeSize
  /-- Otherwise it reports the first one that has. -/
  error : ∀ source runs,
    (plan r).remoteSources.find? (fun entry => (info entry.1).typeSize < (info r).typeSize) =
      some (source, runs) →
    result = .error (.reported (.communication source (.wrongLength
      (Run.totalLength runs * (info r).typeSize) (Run.totalLength runs * (info source).typeSize))))
  /-- Elements of the same size arrive as they are. -/
  same : ∀ entry ∈ (plan r).remoteSources, (info entry.1).typeSize = (info r).typeSize →
    ∀ run ∈ entry.2, ∀ fill ∈ run.fills, data.element (info r).typeSize fill.dest =
      ((region entry.1).stored (info entry.1)).element (info r).typeSize fill.src
  /-- Of larger elements only as many bytes arrive as are expected. -/
  larger : ∀ entry ∈ (plan r).remoteSources, (info r).typeSize ≤ (info entry.1).typeSize →
    entry.2.flatMap (Run.given (data.element (info r).typeSize)) =
      (delivered plan info region entry.1 r).take (Run.totalLength entry.2 * (info r).typeSize)
  /-- Of smaller elements nothing arrives. -/
  smaller : ∀ entry ∈ (plan r).remoteSources, (info entry.1).typeSize < (info r).typeSize →
    ∀ slot ∈ entry.2.flatMap Run.dests, data.element (info r).typeSize slot =
      ((region r).stored (info r)).element (info r).typeSize slot

/-! ## Messages that are cut -/

section
variable {size : Nat} {sizeOf : Nat → Nat} {message : Nat → Bytes}

/-- A message is missed exactly if its elements are smaller than expected. -/
theorem lack?_cut {entry : Nat × List Run} {size' : Nat} {bytes : Bytes}
    (hpos : 0 < Run.totalLength entry.2) (hlength : bytes.length = Run.totalLength entry.2 * size') :
    lack? size (entry, some (bytes.take (Run.totalLength entry.2 * size))) =
      if size' < size then
        some (.communication entry.1
          (.wrongLength (Run.totalLength entry.2 * size) (Run.totalLength entry.2 * size')))
      else none := by
  by_cases hsize : size' < size
  · have hlt : Run.totalLength entry.2 * size' < Run.totalLength entry.2 * size :=
      Nat.mul_lt_mul_of_pos_left hsize hpos
    rw [if_pos hsize, List.take_of_length_le (hlength ▸ Nat.le_of_lt hlt), lack?]
    simp only [messageFrom, expectLength, hlength, if_neg (Nat.ne_of_lt hlt)]
    rfl
  · rw [if_neg hsize]
    refine lack?_eq_none_iff.mpr ⟨_, rfl, List.length_take_of_le ?_⟩
    rw [hlength]
    exact Nat.mul_le_mul_left _ (Nat.le_of_not_lt hsize)

/-- The first source that is missed is the first one with smaller elements. -/
theorem findSome?_lack?_cut {entries : RunTable}
    (hentries : ∀ entry ∈ entries, 0 < Run.totalLength entry.2 ∧
      (message entry.1).length = Run.totalLength entry.2 * sizeOf entry.1) :
    (entries.map fun entry => (entry, some ((message entry.1).take
        (Run.totalLength entry.2 * size)))).findSome? (lack? size) =
      (entries.find? fun entry => sizeOf entry.1 < size).map fun entry =>
        .communication entry.1 (.wrongLength (Run.totalLength entry.2 * size)
          (Run.totalLength entry.2 * sizeOf entry.1)) := by
  induction entries with
  | nil => rfl
  | cons entry entries ih =>
    obtain ⟨hpos, hlength⟩ := hentries entry (by simp)
    rw [List.map_cons, List.findSome?_cons, List.find?_cons, lack?_cut hpos hlength,
      ih fun other hother => hentries other (by simp [hother])]
    by_cases hsize : sizeOf entry.1 < size
    · rw [if_pos hsize, decide_eq_true hsize]
      rfl
    · rw [if_neg hsize, decide_eq_false hsize]

/-- An exchange without missed sources is one without sources that have smaller elements. -/
theorem ending_find?_eq_ok_iff {entries : RunTable} {error : Nat × List Run → MeshError} :
    ending ((entries.find? fun entry => sizeOf entry.1 < size).map error) = .ok () ↔
      ∀ entry ∈ entries, size ≤ sizeOf entry.1 := by
  rw [ending_eq_ok_iff, Option.map_eq_none_iff, List.find?_eq_none]
  simp only [decide_eq_true_eq, Nat.not_lt]

end

/-! ## One rank -/

section
variable {n tag : Nat} {plan : Nat → CopyPlan} {info : Nat → FieldInfo} {region : Nat → Region}

/-- A color gets at least one element from each of its sources, and what is sent to it is as long as it
expects if the elements of the source are of its size. -/
theorem Concert.length_delivered_of_runs (h : Concert n tag plan)
    (hstored : ∀ r < n, ((region r).stored (info r)).length = (plan r).slots * (info r).typeSize)
    {r : Nat} (hr : r < n) {entry : Nat × List Run} (hentry : entry ∈ (plan r).recv) :
    0 < Run.totalLength entry.2 ∧ (delivered plan info region entry.1 r).length =
      Run.totalLength entry.2 * (info entry.1).typeSize := by
  have hsound := h.sound r hr
  have hagrees : Agrees plan entry.1 r := by
    rw [Agrees, hsound.filter_runs, hsound.recv_runsOf_of_mem hentry, h.runs_eq r hr entry hentry]
  exact ⟨(hsound.received entry hentry).total_pos, h.length_delivered hstored hr hentry hagrees⟩

/-- A message that arrives as it was sent fills its slots as their owners are. -/
theorem Concert.dest_eq_src (h : Concert n tag plan)
    (hstored : ∀ r < n, ((region r).stored (info r)).length = (plan r).slots * (info r).typeSize)
    {r : Nat} (hr : r < n) {entry : Nat × List Run} (hentry : entry ∈ (plan r).recv)
    (hsize : (info entry.1).typeSize = (info r).typeSize) {data : Bytes}
    (hdata : data.length = (plan r).slots * (info r).typeSize)
    (hgiven : entry.2.flatMap (Run.given (data.element (info r).typeSize)) =
      delivered plan info region entry.1 r) :
    ∀ run ∈ entry.2, ∀ fill ∈ run.fills, data.element (info r).typeSize fill.dest =
      ((region entry.1).stored (info entry.1)).element (info r).typeSize fill.src := by
  have hsource := (h.sound r hr).source_lt _ (List.mem_map_of_mem hentry)
  have hlength := hsize ▸ hstored entry.1 hsource
  rw [delivered, carried, h.runs_eq r hr entry hentry, hsize] at hgiven
  refine @Run.dest_eq_src_of_message (info r).typeSize _ _ _ (fun run hrun i hi => ?_)
    (fun run hrun i hi => ?_) hgiven
  · have hdest := (h.sound r hr).dest_stop_le entry hentry run hrun
    exact Bytes.length_element hdata (Nat.lt_of_lt_of_le (Nat.add_lt_add_left hi _) hdest)
  · rw [← h.runs_eq r hr entry hentry] at hrun
    have hsrc := (h.sound entry.1 hsource).src_stop_le_of_mem_sendsTo hrun
    exact Bytes.length_element hlength (Nat.lt_of_lt_of_le (Nat.add_lt_add_left hi _) hsrc)

/-- An exchange of a rank with messages that were made of elements of other sizes. -/
theorem Concert.bySizes (h : Concert n tag plan)
    (hstored : ∀ r < n, ((region r).stored (info r)).length = (plan r).slots * (info r).typeSize)
    {r : Nat} (hr : r < n) {data : Bytes} (hdata : data.length = (plan r).slots * (info r).typeSize)
    (hexchanged : (plan r).Exchanged (info r).typeSize (replied plan info region r)
      (((region r).stored (info r)).element (info r).typeSize) (data.element (info r).typeSize)) :
    BySizes plan info region r (ending (((plan r).remoteSources.zip
      (replied plan info region r)).findSome? (lack? (info r).typeSize))) data := by
  have hmem : ∀ entry ∈ (plan r).remoteSources, entry ∈ (plan r).recv := fun _ =>
    List.mem_of_mem_filter
  have hentries : ∀ entry ∈ (plan r).remoteSources, 0 < Run.totalLength entry.2 ∧
      (delivered plan info region entry.1 r).length =
        Run.totalLength entry.2 * (info entry.1).typeSize := fun entry hentry =>
    h.length_delivered_of_runs hstored hr (hmem entry hentry)
  have hzip : (plan r).remoteSources.zip (replied plan info region r) = _ :=
    (plan r).zip_repliesWith (info r).typeSize fun s => delivered plan info region s r
  have hreceived : ∀ entry ∈ (plan r).remoteSources, Absorbed (info r).typeSize
      (entry, some ((delivered plan info region entry.1 r).take
        (Run.totalLength entry.2 * (info r).typeSize)))
      (((region r).stored (info r)).element (info r).typeSize) (data.element (info r).typeSize) := by
    intro entry hentry
    apply hexchanged.received
    rw [hzip]
    exact List.mem_map_of_mem hentry
  have hlarger : ∀ entry ∈ (plan r).remoteSources, (info r).typeSize ≤ (info entry.1).typeSize →
      entry.2.flatMap (Run.given (data.element (info r).typeSize)) =
        (delivered plan info region entry.1 r).take
          (Run.totalLength entry.2 * (info r).typeSize) := by
    intro entry hentry hle
    refine (hreceived entry hentry).written _ rfl (List.length_take_of_le ?_)
    rw [(hentries entry hentry).2]
    exact Nat.mul_le_mul_left _ hle
  have hfirst := @findSome?_lack?_cut (info r).typeSize (fun s => (info s).typeSize)
    (fun s => delivered plan info region s r) _ hentries
  rw [hzip, hfirst]
  refine ⟨?_, ?_, ?_, hlarger, ?_⟩
  · exact @ending_find?_eq_ok_iff (info r).typeSize (fun s => (info s).typeSize) _ _
  · intro source runs hfind
    rw [hfind]
    rfl
  · intro entry hentry hsize
    refine h.dest_eq_src hstored hr (hmem entry hentry) hsize hdata ?_
    rw [hlarger entry hentry (Nat.le_of_eq hsize.symm), ← hsize, ← (hentries entry hentry).2,
      List.take_length]
  · intro entry hentry hlt
    refine (hreceived entry hentry).untouched ?_
    rw [lack?_cut (hentries entry hentry).1 (hentries entry hentry).2, if_pos hlt]
    exact Option.some_ne_none _

end

/-! ## Plans of one coloring -/

section
variable {coloring : Coloring} {space : Nat} {d : ColoringDefinition} {parts : List IndexColoring}
  {plan : Nat → CopyPlan}

/-- A color receives ghosts from the slots that own their indices. -/
theorem owns_of_mem_recv (h : coloring.HasSpace space d parts) {r : Nat} (hr : r < parts.length)
    {entry : Nat × List Run} (hentry : entry ∈ (plansOf space d parts r).recv) {run : Run}
    (hrun : run ∈ entry.2) {fill : Fill} (hfill : fill ∈ run.fills) :
    ∃ x, parts[r].IsGhost x ∧ parts[r].linear x = .ok fill.dest ∧
      Ghost.Owns d parts parts[r] x entry.1 fill.src := by
  rw [(eq_of_mem_recv hentry).1] at hrun
  obtain ⟨hrun, hsource⟩ := mem_runsOf_of_mem_sentTo hrun
  have hsourceOf : fill.source = entry.1 := by
    obtain ⟨i, -, rfl⟩ := List.mem_map.mp hfill
    exact hsource
  obtain ⟨nb, x, y, hnb, hghost, hslot, howned, hsrc, hsame⟩ :=
    (Ghost.covers_fillsAt h hr).source fill (Ghost.mem_fillsOf h hrun hfill)
  rw [hsourceOf] at hnb
  exact ⟨x, hghost, hslot, nb, y, hnb, howned, hsrc, hsame⟩

/-- All colors refresh a field with their plans, with elements of sizes of their own. -/
theorem refresh_completes_bySizes {spec : ColoringSpec} (hof : Coloring.ofSpec spec = .ok coloring)
    (hplan : ∀ r < coloring.colors, ofColoring coloring space r = .ok (plan r))
    {info : Nat → FieldInfo} {region : Nat → Region} {sizes : Nat → Nat → Nat}
    (hsized : ∀ r < coloring.colors, (region r).Sized (sizes r))
    (hroom : ∀ r < coloring.colors, (region r).HasRoom (info r))
    (hchecks : ∀ r < coloring.colors, (plan r).objection? (info r) (region r) = none) :
    ∃ (result : Nat → Except Failure Unit) (region' : Nat → Region) (data : Nat → Bytes),
      Completes coloring.colors (fun r => ((plan r).refresh (info r)).run.run (region r))
        (fun r => (result r, region' r)) ∧
      ∀ r < coloring.colors, (region' r).bytes (info r) = .ok (data r) ∧
        BySizes plan info region r (result r) (data r) := by
  have hconcert := concert_of_ofColoring hof hplan
  have haccepts : ∀ r < coloring.colors, (plan r).Accepts (info r) (region r) := fun r hr =>
    accepts_of_objection?_eq_none (hchecks r hr) (hroom r hr)
  have hstored : ∀ r < coloring.colors,
      ((region r).stored (info r)).length = (region r).length * (info r).typeSize := fun r hr =>
    (hsized r hr).length_stored_of_admits (haccepts r hr).admits
  obtain ⟨data, hcompletes, hdata⟩ := hconcert.refresh_completes haccepts hstored
  refine ⟨_, _, data, hcompletes, fun r hr => ⟨?_, ?_⟩⟩
  · exact Region.bytes_setBytes_ensured (haccepts r hr).admits.space_eq (data r)
  · refine hconcert.bySizes (fun s hs => ?_) hr (hdata r hr).1 (hdata r hr).2
    rw [hstored s hs, (haccepts s hs).length_eq]

end

/-- All colors of a coloring refresh a field with plans for one index space, each with elements of its own
size. If all fields pass the checks, every interleaving ends. A rank succeeds exactly if no other color
that it receives from has smaller elements, and otherwise reports the first one that has. Ghosts from a
color with elements of the same size are as their owners were, and those from a color with larger ones
hold the front of its message. -/
theorem refresh_settles_bySizes {spec : ColoringSpec} {coloring : Coloring}
    (hof : Coloring.ofSpec spec = .ok coloring) {space : Nat} {plan : Nat → CopyPlan}
    (hplan : ∀ r < coloring.colors, ofColoring coloring space r = .ok (plan r))
    {info : Nat → FieldInfo} {region : Nat → Region} {sizes : Nat → Nat → Nat}
    (hsized : ∀ r < coloring.colors, (region r).Sized (sizes r))
    (hroom : ∀ r < coloring.colors, (region r).HasRoom (info r))
    (hchecks : ∀ r < coloring.colors, (plan r).objection? (info r) (region r) = none) :
    ∃ (result : Nat → Except Failure Unit) (region' : Nat → Region) (data : Nat → Bytes),
      (Group.start ((List.range coloring.colors).map fun r =>
        ((plan r).refresh (info r)).run.run (region r))).Settles
          ((List.range coloring.colors).map fun r => (result r, region' r)) ∧
      ∀ r < coloring.colors, (region' r).bytes (info r) = .ok (data r) ∧
        BySizes plan info region r (result r) (data r) ∧
        (spec.Representable → ∃ d parts me, coloring.spec.indexSpaces[space]? = some d ∧
          coloring.parts[space]? = some parts ∧ parts[r]? = some me ∧
          ∀ entry ∈ (plan r).remoteSources, ∀ run ∈ entry.2, ∀ fill ∈ run.fills,
            ∃ x, me.IsGhost x ∧ me.linear x = .ok fill.dest ∧
              Ghost.Owns d parts me x entry.1 fill.src) := by
  obtain ⟨result, region', data, hcompletes, hsizes⟩ :=
    refresh_completes_bySizes hof hplan hsized hroom hchecks
  refine ⟨result, region', data, hcompletes.settles, fun r hr => ?_⟩
  obtain ⟨hbytes, hsizes⟩ := hsizes r hr
  refine ⟨hbytes, hsizes, fun hrep => ?_⟩
  obtain ⟨d, parts, h⟩ := Coloring.exists_hasSpace hrep hof (space_lt_of_ofColoring (hplan r hr))
  have hcolor : r < parts.length := h.colors_eq ▸ hr
  refine ⟨d, parts, parts[r], h.definition, h.records, List.getElem?_eq_getElem hcolor, ?_⟩
  intro entry hentry run hrun fill hfill
  have hplansOf := Except.ok.inj ((hplan r hr).symm.trans (ofColoring_eq_plansOf h hcolor))
  have hrecv := List.mem_of_mem_filter hentry
  rw [hplansOf] at hrecv
  exact owns_of_mem_recv h hcolor hrecv hrun hfill

/-! ## A ring of two colors -/

/-- Two colors with two elements each, and one ghost on either side. -/
def ringSpec : ColoringSpec := ⟨[⟨[2], [4], [1], [0], [true]⟩]⟩

/-- Each color sends its last element and its first one to the other color. -/
def ringPlan (r : Nat) : CopyPlan where
  indexSpace := 0
  color := r
  slots := 4
  tag := 3072
  recv := [(1 - r, [⟨0, 1, 1 - r, 2⟩, ⟨3, 1, 1 - r, 1⟩])]
  send := [(1 - r, [⟨0, 1, r, 2⟩, ⟨3, 1, r, 1⟩])]

/-- The elements of color 1 have two bytes, and those of color 0 only one. -/
def ringInfo (r : Nat) : FieldInfo := ⟨7, 0, r + 1⟩

def ringRegion (r : Nat) : Region :=
  ⟨0, r, 4, [(7, ⟨List.replicate (4 * (r + 1)) (UInt8.ofNat r), r + 1, true⟩)]⟩

theorem exists_ring : ∃ coloring, Coloring.ofSpec ringSpec = .ok coloring ∧ coloring.colors = 2 ∧
    (∀ r < coloring.colors, ofColoring coloring 0 r = .ok (ringPlan r)) ∧
    (∀ r < coloring.colors, (ringRegion r).Sized fun _ => r + 1) ∧
    (∀ r < coloring.colors, (ringRegion r).HasRoom (ringInfo r)) ∧
    ∀ r < coloring.colors, (ringPlan r).objection? (ringInfo r) (ringRegion r) = none := by
  obtain ⟨coloring, hof, hspace, hd, hcolors⟩ : ∃ coloring, Coloring.ofSpec ringSpec = .ok coloring ∧
      0 < coloring.indexSpaces ∧
      coloring.spec.indexSpaces[0]? = some ⟨[2], [4], [1], [0], [true]⟩ ∧ coloring.colors = 2 :=
    ⟨_, rfl, by decide, rfl, rfl⟩
  have hrep : ringSpec.Representable := by decide
  have hr : ∀ r < coloring.colors, r = 0 ∨ r = 1 := by omega
  refine ⟨coloring, hof, hcolors, fun r hlt => ?_, fun r _ => ?_, fun r hlt => ?_, fun r hlt => ?_⟩
  · rw [ofColoring_eq_planOf hrep hof hspace hd hlt]
    rcases hr r hlt with rfl | rfl
    · rfl
    · rfl
  · intro field buffer hbuffer
    obtain ⟨entry, hentry, rfl⟩ := Option.map_eq_some_iff.mp hbuffer
    obtain rfl := List.mem_singleton.mp (List.mem_of_find?_eq_some hentry)
    exact ⟨rfl, List.length_replicate⟩
  · rcases hr r hlt with rfl | rfl
    · exact show Region.chunked (4 * 1) ≤ Word.bufferLimit by decide
    · exact show Region.chunked (4 * 2) ≤ Word.bufferLimit by decide
  · rcases hr r hlt with rfl | rfl
    · rfl
    · rfl

/-- Color 0 receives larger elements than its own, and color 1 smaller ones. -/
theorem refresh_settles_bySizes_on_ring : ∃ coloring, Coloring.ofSpec ringSpec = .ok coloring ∧
    coloring.colors = 2 ∧ (∀ r < coloring.colors, ofColoring coloring 0 r = .ok (ringPlan r)) ∧
    (∀ r < coloring.colors, (ringRegion r).Sized fun _ => r + 1) ∧
    (∀ r < coloring.colors, (ringRegion r).HasRoom (ringInfo r)) ∧
    (∀ r < coloring.colors, (ringPlan r).objection? (ringInfo r) (ringRegion r) = none) ∧
    ∃ (result : Nat → Except Failure Unit) (region' : Nat → Region) (data : Nat → Bytes),
      (Group.start ((List.range coloring.colors).map fun r =>
        ((ringPlan r).refresh (ringInfo r)).run.run (ringRegion r))).Settles
          ((List.range coloring.colors).map fun r => (result r, region' r)) ∧
      ∀ r < coloring.colors, (region' r).bytes (ringInfo r) = .ok (data r) ∧
        BySizes ringPlan ringInfo ringRegion r (result r) (data r) ∧
        (ringSpec.Representable → ∃ d parts me, coloring.spec.indexSpaces[0]? = some d ∧
          coloring.parts[0]? = some parts ∧ parts[r]? = some me ∧
          ∀ entry ∈ (ringPlan r).remoteSources, ∀ run ∈ entry.2, ∀ fill ∈ run.fills,
            ∃ x, me.IsGhost x ∧ me.linear x = .ok fill.dest ∧
              Ghost.Owns d parts me x entry.1 fill.src) := by
  obtain ⟨coloring, hof, hcolors, hplan, hsized, hroom, hchecks⟩ := exists_ring
  exact ⟨coloring, hof, hcolors, hplan, hsized, hroom, hchecks,
    refresh_settles_bySizes hof hplan hsized hroom hchecks⟩

/-- Color 0 succeeds with elements that are half as large as those of its only source. -/
theorem refresh_accepts_larger_elements : ∃ coloring, Coloring.ofSpec ringSpec = .ok coloring ∧
    coloring.colors = 2 ∧ (∀ r < coloring.colors, ofColoring coloring 0 r = .ok (ringPlan r)) ∧
    (∀ r < coloring.colors, (ringPlan r).objection? (ringInfo r) (ringRegion r) = none) ∧
    ∃ (result : Nat → Except Failure Unit) (region' : Nat → Region),
      (Group.start ((List.range coloring.colors).map fun r =>
        ((ringPlan r).refresh (ringInfo r)).run.run (ringRegion r))).Settles
          ((List.range coloring.colors).map fun r => (result r, region' r)) ∧
      result 0 = .ok () ∧ (ringPlan 0).remoteSources.map (·.1) = [1] ∧
      (ringInfo 1).typeSize ≠ (ringInfo 0).typeSize := by
  obtain ⟨coloring, hof, hcolors, hplan, hsized, hroom, hchecks⟩ := exists_ring
  obtain ⟨result, region', data, hcompletes, hsizes⟩ :=
    refresh_completes_bySizes hof hplan hsized hroom hchecks
  refine ⟨coloring, hof, hcolors, hplan, hchecks, result, region', hcompletes.settles, ?_, rfl, by decide⟩
  have hle : ∀ entry ∈ (ringPlan 0).remoteSources,
      (ringInfo 0).typeSize ≤ (ringInfo entry.1).typeSize := by decide
  exact (hsizes 0 (hcolors ▸ Nat.two_pos)).2.ok_iff.mpr hle

end CopyPlan

end HaloMesh
