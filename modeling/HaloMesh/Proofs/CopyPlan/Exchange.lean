-- SUMMARY: One exchange gives every ghost slot the value of its owner and leaves all other slots as they are.
import HaloMesh.Proofs.CopyPlan.Posting
import HaloMesh.Proofs.Ghost.Zones

/-!
# One exchange

What a color holds after an exchange depends only on what all colors own. `refreshed` gives the value
of every slot. A message from one color to another holds the values that the slots of the other are
to have, and what a color sends does not depend on how far it has got with its own ghosts, since no
value is taken from a ghost slot.
-/

namespace HaloMesh

/-! ## Values after an exchange -/

namespace Ghost

/-- The copies into the storage of a color. -/
def fillsOf (d : ColoringDefinition) (color : Nat) : List Fill :=
  fillsAt d.axes (Grid.position d.axisColors color)

/-- The slots that are filled. -/
def destsOf (d : ColoringDefinition) (color : Nat) : List Nat := (fillsOf d color).map (·.dest)

/-- The value of a slot after an exchange: that of its owner for a ghost slot, its own for others. -/
def refreshed (d : ColoringDefinition) (initial : Nat → Nat → Bytes) (color slot : Nat) : Bytes :=
  match (fillsOf d color).find? (·.dest == slot) with
  | some fill => initial fill.source fill.src
  | none => initial color slot

section
variable {coloring : Coloring} {space : Nat} {d : ColoringDefinition} {parts : List IndexColoring}
  {color : Nat} {initial : Nat → Nat → Bytes}

theorem refreshed_dest (h : coloring.HasSpace space d parts) {fill : Fill}
    (hfill : fill ∈ fillsOf d color) :
    refreshed d initial color fill.dest = initial fill.source fill.src := by
  have hnodup : (destsOf d color).Nodup :=
    nodup_dest_fillsAt (h.valid.hasPositions_position h.fits color).length_eq
  rw [refreshed]
  cases hfind : (fillsOf d color).find? (·.dest == fill.dest) with
  | none =>
    have hne := List.find?_eq_none.mp hfind fill hfill
    exact absurd (beq_self_eq_true fill.dest) hne
  | some found =>
    -- No two copies have the same slot.
    have hfound := List.find?_some hfind
    have hdest : found.dest = fill.dest := beq_iff_eq.mp hfound
    have heq := List.inj_on_of_nodup_map hnodup (List.mem_of_find?_eq_some hfind) hfill hdest
    rw [heq]

theorem refreshed_of_not_mem {slot : Nat} (hslot : slot ∉ destsOf d color) :
    refreshed d initial color slot = initial color slot := by
  have hfind : (fillsOf d color).find? (·.dest == slot) = none := by
    refine List.find?_eq_none.mpr fun fill hfill heq => hslot ?_
    exact List.mem_map.mpr ⟨fill, hfill, beq_iff_eq.mp heq⟩
  rw [refreshed, hfind]

theorem bounds_of_mem_fillsOf (h : coloring.HasSpace space d parts) (hcolor : color < parts.length)
    {fill : Fill} (hfill : fill ∈ fillsOf d color) : fill.dest < parts[color].extents.prod ∧
      ∃ hsource : fill.source < parts.length, fill.src < parts[fill.source].extents.prod := by
  rw [fillsOf, ← flatMap_fills_runsOf h.valid] at hfill
  obtain ⟨r, hr, hfill⟩ := List.mem_flatMap.mp hfill
  obtain ⟨i, hi, rfl⟩ := List.mem_map.mp hfill
  have hi := List.mem_range.mp hi
  obtain ⟨hsource, hdest, hsrc⟩ := stop_le_of_mem_runsOf h hcolor hr
  exact ⟨Nat.lt_of_lt_of_le (Nat.add_lt_add_left hi _) hdest, hsource,
    Nat.lt_of_lt_of_le (Nat.add_lt_add_left hi _) hsrc⟩

theorem mem_fillsOf (h : coloring.HasSpace space d parts) {r : Run} (hr : r ∈ runsOf d color)
    {fill : Fill} (hfill : fill ∈ r.fills) : fill ∈ fillsOf d color := by
  rw [fillsOf, ← flatMap_fills_runsOf h.valid]
  exact List.mem_flatMap.mpr ⟨r, hr, hfill⟩

end

end Ghost

namespace CopyPlan

/-! ## Peers -/

/-- The other colors from which a color receives, in order. -/
def receivesFrom (d : ColoringDefinition) (color : Nat) : List Nat :=
  (Ghost.ordered ((Ghost.runsOf d color).map (·.source))).filter (· != color)

/-- The other colors to which a color sends, in order. -/
def sendsOn (d : ColoringDefinition) (color : Nat) : List Nat :=
  ((Ghost.neighborsOf d color).filter fun dest => !(sentTo d color dest).isEmpty).filter (· != color)

section
variable {coloring : Coloring} {space : Nat} {d : ColoringDefinition} {parts : List IndexColoring}
  {color peer : Nat}

theorem mem_receivesFrom :
    peer ∈ receivesFrom d color ↔ sentTo d peer color ≠ [] ∧ peer ≠ color := by
  rw [receivesFrom, List.mem_filter, Ghost.mem_ordered, bne_iff_ne]
  exact and_congr_left fun _ => (not_iff_comm.mp sentTo_eq_nil_iff.symm).symm

theorem mem_sendsOn (h : coloring.HasSpace space d parts) :
    peer ∈ sendsOn d color ↔ peer < parts.length ∧ sentTo d color peer ≠ [] ∧ peer ≠ color := by
  rw [sendsOn, List.mem_filter, List.mem_filter, bne_iff_ne, Bool.not_eq_true',
    List.isEmpty_eq_false_iff, h.partsOf.length_eq]
  constructor
  · exact fun ⟨⟨hmem, hruns⟩, hne⟩ => ⟨Ghost.lt_of_mem_neighborsOf h.valid hmem, hruns, hne⟩
  · exact fun ⟨hpeer, hruns, hne⟩ =>
      ⟨⟨mem_neighborsOf_of_sentTo h.valid hpeer hruns, hruns⟩, hne⟩

theorem lt_of_mem_receivesFrom (h : coloring.HasSpace space d parts) (hcolor : color < parts.length)
    (hpeer : peer ∈ receivesFrom d color) : peer < parts.length := by
  obtain ⟨r, hr⟩ := List.exists_mem_of_ne_nil _ (mem_receivesFrom.mp hpeer).1
  obtain ⟨hr, hsource⟩ := List.mem_filter.mp hr
  obtain ⟨hlt, -⟩ := Ghost.stop_le_of_mem_runsOf h hcolor hr
  exact beq_iff_eq.mp hsource ▸ hlt

theorem remoteSources_planOf (part : IndexColoring) :
    (planOf space d part color).remoteSources =
      (receivesFrom d color).map fun peer => (peer, sentTo d peer color) := by
  rw [remoteSources, planOf, RunTable.bySource, List.filter_map]
  rfl

theorem remoteDestinations_planOf (part : IndexColoring) :
    (planOf space d part color).remoteDestinations =
      (sendsOn d color).map fun peer => (peer, sentTo d color peer) := by
  rw [remoteDestinations, planOf, sendOf, List.filter_map]
  rfl

/-- The ranks of a group send and receive along the same pairs. -/
theorem matches_peers (h : coloring.HasSpace space d parts) (tag : Nat)
    (message : Nat → Nat → Option Bytes) :
    Matches parts.length (fun r => Parcel.toPeers (sendsOn d r) tag (message r))
      fun s => Parcel.toPeers (receivesFrom d s) tag fun r => message r s := by
  refine matches_toPeers tag (fun r _ => ⟨?_, fun s hs => ((mem_sendsOn h).mp hs).1⟩)
    (fun s hs => ⟨?_, fun r hr => lt_of_mem_receivesFrom h hs hr⟩) fun r hr s hs => ?_
  · exact ((Ghost.nodup_ordered _).filter _).filter _
  · exact (Ghost.nodup_ordered _).filter _
  · rw [mem_sendsOn h, mem_receivesFrom, and_iff_right hs]
    exact and_congr_right fun _ => ne_comm

end

/-! ## Messages -/

/-- Every color has room for elements of a size, and holds such elements. -/
structure Stocked (parts : List IndexColoring) (size : Nat) (initial : Nat → Nat → Bytes) : Prop where
  bytes_le : ∀ color (h : color < parts.length), parts[color].extents.prod * size ≤ Word.bufferLimit
  length_eq : ∀ color (h : color < parts.length), ∀ slot < parts[color].extents.prod,
    (initial color slot).length = size

/-- The message from a color to another, which holds what the slots of the other are to have. -/
def message (d : ColoringDefinition) (initial : Nat → Nat → Bytes) (color dest : Nat) : Bytes :=
  (sentTo d color dest).flatMap (Run.given (Ghost.refreshed d initial dest))

/-- Outside of its ghost slots a color holds what it held at first. -/
def Keeps (d : ColoringDefinition) (initial : Nat → Nat → Bytes) (color : Nat) (f : Nat → Bytes) :
    Prop :=
  ∀ slot ∉ Ghost.destsOf d color, f slot = initial color slot

section
variable {coloring : Coloring} {space : Nat} {d : ColoringDefinition} {parts : List IndexColoring}
  {color peer size : Nat} {initial : Nat → Nat → Bytes} {f : Nat → Bytes}

theorem Stocked.length_refreshed (hs : Stocked parts size initial) (h : coloring.HasSpace space d parts)
    (hcolor : color < parts.length) :
    ∀ slot < parts[color].extents.prod, (Ghost.refreshed d initial color slot).length = size := by
  intro slot hslot
  by_cases hmem : slot ∈ Ghost.destsOf d color
  · obtain ⟨fill, hfill, rfl⟩ := List.mem_map.mp hmem
    rw [Ghost.refreshed_dest h hfill]
    obtain ⟨-, hsource, hsrc⟩ := Ghost.bounds_of_mem_fillsOf h hcolor hfill
    exact hs.length_eq fill.source hsource _ hsrc
  · rw [Ghost.refreshed_of_not_mem hmem]
    exact hs.length_eq color hcolor slot hslot

theorem src_stop_le_of_mem_sentTo (h : coloring.HasSpace space d parts) (hcolor : color < parts.length)
    (hpeer : peer < parts.length) {r : Run} (hr : r ∈ sentTo d color peer) :
    r.src + r.length ≤ parts[color].extents.prod := by
  obtain ⟨hmem, rfl⟩ := mem_runsOf_of_mem_sentTo hr
  obtain ⟨_, -, hstop⟩ := Ghost.stop_le_of_mem_runsOf h hpeer hmem
  exact hstop

theorem dest_stop_le_of_mem_sentTo (h : coloring.HasSpace space d parts) (hpeer : peer < parts.length)
    {r : Run} (hr : r ∈ sentTo d color peer) : r.dest + r.length ≤ parts[peer].extents.prod :=
  (Ghost.stop_le_of_mem_runsOf h hpeer (mem_runsOf_of_mem_sentTo hr).1).2.1

/-- What a run takes from a color that keeps what it owns is what its ghost slots are to have. -/
theorem Keeps.src_eq (hf : Keeps d initial color f) (h : coloring.HasSpace space d parts) {r : Run}
    (hr : r ∈ sentTo d color peer) :
    ∀ fill ∈ r.fills, f fill.src = Ghost.refreshed d initial peer fill.dest := by
  intro fill hfill
  obtain ⟨hrun, rfl⟩ := mem_runsOf_of_mem_sentTo hr
  have hmem := Ghost.mem_fillsOf h hrun hfill
  have hsource := Run.source_of_mem_fills hfill
  have hnot := Ghost.src_not_mem_dests h.valid hmem
  rw [hsource] at hnot
  rw [Ghost.refreshed_dest h hmem, hsource]
  exact hf _ hnot

/-- The values that a color gathers for another do not depend on its ghosts. -/
theorem Keeps.message_eq (hf : Keeps d initial color f) (h : coloring.HasSpace space d parts)
    (peer : Nat) :
    (sentTo d color peer).flatMap (Run.taken f) = message d initial color peer :=
  List.flatMap_congr fun _ hr => Run.taken_eq_given (hf.src_eq h hr)

theorem length_message (h : coloring.HasSpace space d parts) (hs : Stocked parts size initial)
    (hpeer : peer < parts.length) :
    (message d initial color peer).length = Run.totalLength (sentTo d color peer) * size :=
  Run.length_message fun _ hr =>
    Run.length_given (dest_stop_le_of_mem_sentTo h hpeer hr) (hs.length_refreshed h hpeer)

end

/-! ## The exchange of one color -/

section
variable {coloring : Coloring} {space : Nat} {d : ColoringDefinition} {parts : List IndexColoring}
  {color peer size : Nat} {initial : Nat → Nat → Bytes} {f : Nat → Bytes} {data : Bytes}

/-- The runs that wrap onto the color itself are copied one after the other. -/
theorem copyOwn_yields (h : coloring.HasSpace space d parts) (hs : Stocked parts size initial)
    (hcolor : color < parts.length) (hf : Keeps d initial color f) {runs : List Run}
    (hruns : ∀ r ∈ runs, r ∈ sentTo d color color) {written : List Nat}
    (hwritten : ∀ slot ∈ written, slot ∈ Ghost.destsOf d color)
    (hdata : Bytes.Shows size parts[color].extents.prod data
      (Bytes.patch (Ghost.refreshed d initial color) f written)) :
    ∃ data', CommState.Yields color (runs.forM (copyOwn size)) data [] () data' ∧
      Bytes.Shows size parts[color].extents.prod data'
        (Bytes.patch (Ghost.refreshed d initial color) f (written ++ runs.flatMap Run.dests)) := by
  induction runs generalizing data written with
  | nil =>
    refine ⟨data, .pure color () data, ?_⟩
    rw [List.flatMap_nil, List.append_nil]
    exact hdata
  | cons r runs ih =>
    have hr := hruns r (by simp)
    have hkeeps : Keeps d initial color (Bytes.patch (Ghost.refreshed d initial color) f written) := by
      intro slot hslot
      rw [Bytes.patch, if_neg fun hmem => hslot (hwritten slot hmem)]
      exact hf slot hslot
    obtain ⟨mid, hcopy, hmid⟩ := Run.copyWithin_eq_ok hdata
      (src_stop_le_of_mem_sentTo h hcolor hcolor hr) (dest_stop_le_of_mem_sentTo h hcolor hr)
      (Word.lt_limit (h.slots_lt color hcolor)) (hs.bytes_le color hcolor)
      (hs.length_refreshed h hcolor)
      (hkeeps.src_eq h hr)
    have hdests : ∀ slot ∈ written ++ r.dests, slot ∈ Ghost.destsOf d color := by
      intro slot hslot
      rcases List.mem_append.mp hslot with hmem | hmem
      · exact hwritten slot hmem
      · rw [← Run.map_dest_fills] at hmem
        obtain ⟨fill, hfill, rfl⟩ := List.mem_map.mp hmem
        exact List.mem_map.mpr
          ⟨fill, Ghost.mem_fillsOf h (mem_runsOf_of_mem_sentTo hr).1 hfill, rfl⟩
    have hstep : CommState.Yields color (copyOwn size r) data [] () mid := by
      refine (CommState.Yields.get color data).bind_silent ?_
      exact (CommState.Yields.of_fault hcopy color data).bind_silent (.set color data mid)
    obtain ⟨data', hyields, hshows⟩ := ih (fun s hmem => hruns s (by simp [hmem])) hdests hmid
    refine ⟨data', ?_, ?_⟩
    · rw [List.forM_eq_forM, List.forM_cons]
      exact hstep.bind_silent hyields
    · rw [List.flatMap_cons, ← List.append_assoc]
      exact hshows

/-- A message that arrives goes to the slots of its runs. -/
theorem awaitSource_yields (h : coloring.HasSpace space d parts) (hs : Stocked parts size initial)
    (hcolor : color < parts.length) {written : List Nat}
    (hdata : Bytes.Shows size parts[color].extents.prod data
      (Bytes.patch (Ghost.refreshed d initial color) f written)) (peer : Nat) :
    ∃ data', CommState.Yields color (awaitSource size none ((peer, sentTo d peer color),
        .receive peer (tagOf space) (Run.totalLength (sentTo d peer color) * size))) data
        [Parcel.received color ⟨peer, tagOf space, message d initial peer color⟩] none data' ∧
      Bytes.Shows size parts[color].extents.prod data'
        (Bytes.patch (Ghost.refreshed d initial color) f
          (written ++ (sentTo d peer color).flatMap Run.dests)) := by
  have hlength : (message d initial peer color).length =
      Run.totalLength (sentTo d peer color) * size := length_message h hs hcolor
  have hmessage : messageFrom peer (Run.totalLength (sentTo d peer color) * size)
      (some ((message d initial peer color).take (Run.totalLength (sentTo d peer color) * size))) =
        .ok (message d initial peer color) := by
    rw [List.take_of_length_le (Nat.le_of_eq hlength)]
    exact messageFrom_eq_ok_iff.mpr ⟨hlength, rfl⟩
  refine ⟨_, ?_, Run.shows_scatter hdata (fun _ hr => dest_stop_le_of_mem_sentTo h hcolor hr)
    (hs.length_refreshed h hcolor)⟩
  refine (CommState.Yields.lift (Program.performs_receive color ⟨peer, _, _⟩ _) data).bind ?_
  rw [hmessage]
  exact (CommState.Yields.update color _ data).bind_silent (.pure color none _)

theorem awaitSources_yields (h : coloring.HasSpace space d parts) (hs : Stocked parts size initial)
    (hcolor : color < parts.length) (peers : List Nat) {written : List Nat}
    (hdata : Bytes.Shows size parts[color].extents.prod data
      (Bytes.patch (Ghost.refreshed d initial color) f written)) :
    ∃ data', CommState.Yields color ((peers.map fun peer => ((peer, sentTo d peer color),
        Request.receive peer (tagOf space) (Run.totalLength (sentTo d peer color) * size))).foldlM
          (awaitSource size) none) data
        (peers.map fun peer => Parcel.received color ⟨peer, tagOf space, message d initial peer color⟩)
        none data' ∧
      Bytes.Shows size parts[color].extents.prod data'
        (Bytes.patch (Ghost.refreshed d initial color) f
          (written ++ peers.flatMap fun peer => (sentTo d peer color).flatMap Run.dests)) := by
  induction peers generalizing data written with
  | nil =>
    refine ⟨data, .pure color none data, ?_⟩
    rw [List.flatMap_nil, List.append_nil]
    exact hdata
  | cons peer peers ih =>
    obtain ⟨mid, hstep, hmid⟩ := awaitSource_yields h hs hcolor hdata peer
    obtain ⟨data', hyields, hshows⟩ := ih hmid
    refine ⟨data', ?_, ?_⟩
    · rw [List.map_cons, List.foldlM_cons]
      exact hstep.bind hyields
    · rw [List.flatMap_cons, ← List.append_assoc]
      exact hshows

/-- The runs of a color, from itself and from the others, cover its ghost slots. -/
theorem mem_dests_of_mem_destsOf (h : coloring.HasSpace space d parts) {slot : Nat}
    (hslot : slot ∈ Ghost.destsOf d color) :
    slot ∈ (sentTo d color color).flatMap Run.dests ++
      (receivesFrom d color).flatMap fun peer => (sentTo d peer color).flatMap Run.dests := by
  obtain ⟨fill, hfill, rfl⟩ := List.mem_map.mp hslot
  rw [Ghost.fillsOf, ← Ghost.flatMap_fills_runsOf h.valid] at hfill
  obtain ⟨r, hr, hfill⟩ := List.mem_flatMap.mp hfill
  have hmem : r ∈ sentTo d r.source color := List.mem_filter.mpr ⟨hr, beq_self_eq_true _⟩
  have hdests : fill.dest ∈ (sentTo d r.source color).flatMap Run.dests := by
    refine List.mem_flatMap.mpr ⟨r, hmem, ?_⟩
    rw [← Run.map_dest_fills]
    exact List.mem_map.mpr ⟨fill, hfill, rfl⟩
  rw [List.mem_append]
  by_cases hown : r.source = color
  · rw [hown] at hdests
    exact .inl hdests
  · have hpeer := mem_receivesFrom.mpr ⟨List.ne_nil_of_mem hmem, hown⟩
    exact .inr (List.mem_flatMap.mpr ⟨r.source, hpeer, hdests⟩)

/-- An exchange gives every ghost slot the value of its owner, whatever the ghosts held before. -/
theorem exchange_yields (h : coloring.HasSpace space d parts) (hs : Stocked parts size initial)
    (hcolor : color < parts.length) (hdata : Bytes.Shows size parts[color].extents.prod data f)
    (hf : Keeps d initial color f) :
    ∃ data', CommState.Yields color ((plansOf space d parts color).exchange size) data
        ((Parcel.toPeers (sendsOn d color) (tagOf space) fun peer =>
            some (message d initial color peer)).map (Parcel.sent color) ++
          (Parcel.toPeers (receivesFrom d color) (tagOf space) fun peer =>
            some (message d initial peer color)).map (Parcel.received color)) () data' ∧
      Bytes.Shows size parts[color].extents.prod data' (Ghost.refreshed d initial color) := by
  have hunwritten : Bytes.Shows size parts[color].extents.prod data
      (Bytes.patch (Ghost.refreshed d initial color) f []) := hdata
  have hnone : ∀ slot ∈ ([] : List Nat), slot ∈ Ghost.destsOf d color := fun _ hmem => nomatch hmem
  obtain ⟨mid, hown, hmid⟩ := copyOwn_yields h hs hcolor hf (fun _ hr => hr) hnone hunwritten
  obtain ⟨data', hawait, hshows⟩ := awaitSources_yields h hs hcolor (receivesFrom d color) hmid
  refine ⟨data', ?_, hshows.congr fun slot _ => ?_⟩
  · have hsound := (family_plansOf h).sound color hcolor
    have hslots := @slots_plansOf space d parts color hcolor
    have hruns : (plansOf space d parts color).recv.runsOf (plansOf space d parts color).color =
        sentTo d color color := RunTable.runsOf_bySource _ _
    have hbytes : (plansOf space d parts color).slots * size ≤ Word.bufferLimit :=
      hslots ▸ hs.bytes_le color hcolor
    have hreceives := @Sound.postReceives_yields _ _ color size data hsound hbytes
    have hsends := @Sound.postSends_yields _ _ color size data f hsound hbytes (hslots ▸ hdata)
    have hcarried : ∀ peer ∈ sendsOn d color,
        Parcel.sent color ⟨peer, tagOf space, (sentTo d color peer).flatMap (Run.taken f)⟩ =
          Parcel.sent color ⟨peer, tagOf space, message d initial color peer⟩ := fun peer _ => by
      rw [hf.message_eq h peer]
    rw [plansOf] at hreceives hsends hruns ⊢
    rw [remoteSources_planOf, List.map_map] at hreceives
    rw [remoteDestinations_planOf, List.map_map] at hsends
    replace hsends := List.map_congr_left hcarried ▸ hsends
    unfold exchange
    rw [remoteSources_planOf, remoteDestinations_planOf, hruns, Parcel.toPeers_some,
      Parcel.toPeers_some, List.map_map, List.map_map]
    refine hreceives.bind_silent ?_
    refine hsends.bind (hown.bind_silent ?_)
    rw [List.zip_map']
    refine hawait.then_silent ?_
    refine (CommState.Yields.lift (Program.performs_completeAll_send ..) data').bind_silent ?_
    exact .of_comm (.pure color ()) data'
  · rw [Bytes.patch]
    split
    · rfl
    · rename_i hnot
      have hkept : slot ∉ Ghost.destsOf d color := fun hmem =>
        hnot (mem_dests_of_mem_destsOf h hmem)
      rw [Ghost.refreshed_of_not_mem hkept]
      exact hf slot hkept

end

end CopyPlan

end HaloMesh
