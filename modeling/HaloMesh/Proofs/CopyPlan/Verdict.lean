-- SUMMARY: What verification of any sound plans finds: whether all expectations are met, or which one is not.
import HaloMesh.CopyPlan.Verify
import HaloMesh.Proofs.Codec.Delimited
import HaloMesh.Proofs.Collective.Values
import HaloMesh.Proofs.CopyPlan.Sound

/-!
# Verdicts

The plans of a group need not come from one coloring. Every color tells its sources how much it
expects from them, and compares what it is told with what it would send. It finds a mismatch exactly
if there is one, and reports the destination that comes first.
-/

namespace HaloMesh

/-! ## Summaries -/

namespace Summary

/-- The summary of runs that are not too long. -/
def total (runs : List Run) : Summary := ⟨runs.length, Run.totalLength runs⟩

theorem ofRuns_eq_ok {runs : List Run} (h : Run.totalLength runs < Word.limit) :
    ofRuns runs = .ok (total runs) := by
  rw [Run.totalLength_eq_sum] at h
  rw [ofRuns, Word.sum_eq_ok h, total, Run.totalLength_eq_sum]
  rfl

theorem total_eq_empty_iff {runs : List Run} : total runs = {} ↔ runs = [] := by
  constructor
  · intro h
    exact List.eq_nil_of_length_eq_zero (congrArg Summary.runs h)
  · rintro rfl
    rfl

theorem delimitsAt_codec {s : Summary} (hruns : s.runs < Word.limit)
    (helements : s.elements < Word.limit) : codec.DelimitsAt s := by
  refine Codec.DelimitsAt.iso ?_ rfl
  exact (Codec.delimitsAt_word hruns).pair (Codec.delimitsAt_word helements)

end Summary

namespace CopyPlan

/-! ## One plan -/

section
variable {p : CopyPlan} {n : Nat}

theorem Transferable.ofRuns_eq_ok {slots : Nat} {runs : List Run} (h : Transferable slots runs)
    (hslots : slots < Word.limit) : Summary.ofRuns runs = .ok (Summary.total runs) :=
  Summary.ofRuns_eq_ok (Nat.lt_of_le_of_lt h.total_le hslots)

theorem Transferable.lawfulAt {slots : Nat} {runs : List Run} (h : Transferable slots runs)
    (hslots : slots < Word.limit) : Summary.codec.LawfulAt (Summary.total runs) := by
  have htotal := Nat.lt_of_le_of_lt h.total_le hslots
  exact (Summary.delimitsAt_codec
    (Nat.lt_of_le_of_lt (Run.length_le_totalLength h.length_pos) htotal) htotal).toLawfulAt

theorem Sound.expectation_eq_ok (h : p.Sound n) (source : Nat) :
    p.expectation source = .ok ((p.recv.lookup source).map Summary.total) := by
  rw [expectation]
  cases hlookup : p.recv.lookup source with
  | none => rfl
  | some runs =>
    have hruns := h.received _ (RunTable.mem_of_lookup hlookup)
    simp only [hruns.ofRuns_eq_ok h.slots_lt, Option.map_some]
    rfl

theorem Sound.expectations_eq_ok (h : p.Sound n) (rank : Nat) (hn : 24 * n ≤ Word.bufferLimit) :
    p.expectations ⟨rank, n⟩ =
      .ok ((List.range n).map fun source => (p.recv.lookup source).map Summary.total) := by
  rw [expectations, Word.reserve_eq_ok_iff.mpr hn, Checked.ok_bind]
  exact Checked.mapM_eq_ok fun source _ => h.expectation_eq_ok source

theorem Sound.wouldSend_eq_ok (h : p.Sound n) (dest : Nat) :
    p.wouldSend dest = .ok (Summary.total (p.sendsTo dest)) := by
  rw [wouldSend, sendsTo, RunTable.runsOf]
  cases hlookup : p.send.lookup dest with
  | none => rfl
  | some runs => exact (h.sent _ (RunTable.mem_of_lookup hlookup)).ofRuns_eq_ok h.slots_lt

/-- The first destination that is told to expect something else than it would get. -/
def unmetIn (p : CopyPlan) (expected : List (Nat × Summary)) : Option (Nat × Summary) :=
  expected.find? fun entry => entry.2 ≠ Summary.total (p.sendsTo entry.1)

theorem ne_of_unmetIn {expected : List (Nat × Summary)} {entry : Nat × Summary}
    (h : p.unmetIn expected = some entry) : entry.2 ≠ Summary.total (p.sendsTo entry.1) := by
  rw [unmetIn] at h
  have hfound := List.find?_some h
  exact of_decide_eq_true hfound

/-- The first destination that would get something and is not told to expect it. -/
def unexpectedIn (p : CopyPlan) (expected : List (Nat × Summary)) : Option (Nat × List Run) :=
  p.send.find? fun entry => !(expected.map (·.1)).contains entry.1

theorem not_contains_of_unexpectedIn {expected : List (Nat × Summary)} {entry : Nat × List Run}
    (h : p.unexpectedIn expected = some entry) : (!(expected.map (·.1)).contains entry.1) = true := by
  rw [unexpectedIn] at h
  have hfound := List.find?_some h
  exact hfound

/-- The mismatch that a color finds. -/
def mismatchIn (p : CopyPlan) (expected : List (Nat × Summary)) : Option Mismatch :=
  ((p.unmetIn expected).map fun entry => ⟨entry.1, entry.2, Summary.total (p.sendsTo entry.1)⟩).or
    ((p.unexpectedIn expected).map fun entry => ⟨entry.1, {}, Summary.total entry.2⟩)

theorem Sound.sendsTo_of_mem (h : p.Sound n) {entry : Nat × List Run} (hentry : entry ∈ p.send) :
    p.sendsTo entry.1 = entry.2 := by
  rw [sendsTo, RunTable.runsOf,
    RunTable.lookup_of_mem (h.destinations_increasing.imp Nat.ne_of_lt) hentry]
  rfl

theorem Sound.unmet?_eq_ok (h : p.Sound n) (expected : List (Nat × Summary)) :
    p.unmet? expected = .ok ((p.unmetIn expected).map fun entry =>
      ⟨entry.1, entry.2, Summary.total (p.sendsTo entry.1)⟩) := by
  unfold unmetIn
  induction expected with
  | nil => rfl
  | cons first rest ih =>
    obtain ⟨dest, s⟩ := first
    rw [unmet?, h.wouldSend_eq_ok, Checked.ok_bind, ih, List.find?_cons]
    by_cases heq : Summary.total (p.sendsTo dest) = s
    · simp [heq]
    · simp [heq, Ne.symm heq]

theorem Sound.unexpected?_eq_ok (h : p.Sound n) (expected : List (Nat × Summary)) :
    p.unexpected? expected = .ok ((p.unexpectedIn expected).map fun entry =>
      ⟨entry.1, {}, Summary.total entry.2⟩) := by
  rw [unexpected?, unexpectedIn]
  cases hfind : p.send.find? fun entry => !(expected.map (·.1)).contains entry.1 with
  | none => rfl
  | some entry =>
    have hruns := h.sent _ (List.mem_of_find?_eq_some hfind)
    simp only [hruns.ofRuns_eq_ok h.slots_lt]
    rfl

theorem Sound.mismatch?_eq_ok (h : p.Sound n) (expected : List (Nat × Summary)) :
    p.mismatch? expected = .ok (p.mismatchIn expected) := by
  rw [mismatch?, h.unmet?_eq_ok, Checked.ok_bind, mismatchIn]
  cases p.unmetIn expected with
  | none => exact h.unexpected?_eq_ok expected
  | some first => rfl

end

/-! ## Groups -/

/-- The plans of a group, one for each color, may stem from different colorings. -/
structure Family (n tag : Nat) (plan : Nat → CopyPlan) : Prop where
  color_eq : ∀ r < n, (plan r).color = r
  tag_eq : ∀ r < n, (plan r).tag = tag
  sound : ∀ r < n, (plan r).Sound n

/-- What a color is told by the others. -/
def told (n : Nat) (plan : Nat → CopyPlan) (color : Nat) : List (Nat × Summary) :=
  (List.range n).filterMap fun r => ((plan r).recv.lookup color).map fun runs => (r, Summary.total runs)

/-- What a color would send to another is what the other expects, in the number of runs and slots. -/
def Agrees (plan : Nat → CopyPlan) (color dest : Nat) : Prop :=
  Summary.total ((plan color).sendsTo dest) =
    Summary.total ((plan dest).runs.filter (·.source == color))

instance (plan : Nat → CopyPlan) (color dest : Nat) : Decidable (Agrees plan color dest) := by
  unfold Agrees
  infer_instance

/-- The error for a destination that a color does not agree with. -/
def disagreement (plan : Nat → CopyPlan) (color dest : Nat) : MeshError :=
  .asymmetricIntervals dest color
    (Run.totalLength ((plan dest).runs.filter (·.source == color)))
    (Run.totalLength ((plan color).sendsTo dest))

/-- What the verification of a plan is to find. Destinations that expect something come first. -/
inductive Verdict (n : Nat) (plan : Nat → CopyPlan) (color : Nat) : Except Failure Unit → Prop
  | agreed : (∀ dest < n, Agrees plan color dest) → Verdict n plan color (.ok ())
  | unmet {dest : Nat} : dest < n → color ∈ (plan dest).sources → ¬ Agrees plan color dest →
      (∀ other < dest, color ∈ (plan other).sources → Agrees plan color other) →
      Verdict n plan color (.error (.reported (disagreement plan color dest)))
  | unexpected {dest : Nat} : dest ∈ (plan color).destinations → color ∉ (plan dest).sources →
      (∀ other < n, color ∈ (plan other).sources → Agrees plan color other) →
      (∀ other < dest, other ∈ (plan color).destinations → color ∈ (plan other).sources) →
      Verdict n plan color (.error (.reported (disagreement plan color dest)))

/-- How the verification of a plan ends. -/
def verdict (n : Nat) (plan : Nat → CopyPlan) (color : Nat) : Except Failure Unit :=
  match (plan color).mismatchIn (told n plan color) with
  | none => .ok ()
  | some m => .error (.reported
      (.asymmetricIntervals m.dest (plan color).color m.expected.elements m.actual.elements))

section
variable {n tag : Nat} {plan : Nat → CopyPlan}

/-! ### What the plans say -/

theorem mem_sources_iff {p : CopyPlan} {source : Nat} :
    source ∈ p.sources ↔ ∃ runs, p.recv.lookup source = some runs := by
  rw [← Option.isSome_iff_exists, ← Option.ne_none_iff_isSome, Ne, RunTable.lookup_eq_none_iff, not_not]
  rfl

theorem mem_told {color : Nat} {entry : Nat × Summary} : entry ∈ told n plan color ↔
    entry.1 < n ∧ ∃ runs, (plan entry.1).recv.lookup color = some runs ∧ entry.2 = Summary.total runs := by
  obtain ⟨dest, s⟩ := entry
  simp only [told, List.mem_filterMap, List.mem_range, Option.map_eq_some_iff, Prod.mk.injEq]
  constructor
  · rintro ⟨_, hlt, runs, hruns, rfl, rfl⟩
    exact ⟨hlt, runs, hruns, rfl⟩
  · rintro ⟨hlt, runs, hruns, rfl⟩
    exact ⟨dest, hlt, runs, hruns, rfl, rfl⟩

theorem mem_keys_told {color dest : Nat} :
    dest ∈ (told n plan color).map (·.1) ↔ dest < n ∧ color ∈ (plan dest).sources := by
  rw [mem_sources_iff]
  constructor
  · intro h
    obtain ⟨entry, hentry, rfl⟩ := List.mem_map.mp h
    obtain ⟨hlt, runs, hruns, -⟩ := mem_told.mp hentry
    exact ⟨hlt, runs, hruns⟩
  · rintro ⟨hlt, runs, hruns⟩
    exact List.mem_map.mpr ⟨(dest, Summary.total runs), mem_told.mpr ⟨hlt, runs, hruns, rfl⟩, rfl⟩

theorem contains_told_iff {color dest : Nat} :
    ((told n plan color).map (·.1)).contains dest = true ↔ dest < n ∧ color ∈ (plan dest).sources := by
  rw [List.contains_iff_mem, mem_keys_told]

theorem pairwise_told (color : Nat) : (told n plan color).Pairwise (·.1 < ·.1) := by
  rw [told, List.pairwise_filterMap]
  refine List.pairwise_lt_range.imp fun {r s} hlt a ha b hb => ?_
  obtain ⟨_, -, rfl⟩ := Option.map_eq_some_iff.mp ha
  obtain ⟨_, -, rfl⟩ := Option.map_eq_some_iff.mp hb
  exact hlt

/-- What a color is told is what the destination expects. -/
theorem Family.eq_total_of_mem_told (h : Family n tag plan) {color : Nat}
    {entry : Nat × Summary} (hmem : entry ∈ told n plan color) :
    entry.2 = Summary.total ((plan entry.1).runs.filter (·.source == color)) := by
  obtain ⟨hlt, runs, hruns, heq⟩ := mem_told.mp hmem
  rw [heq, (h.sound entry.1 hlt).filter_runs, RunTable.runsOf, hruns]
  rfl

theorem Family.filter_runs_eq_nil (h : Family n tag plan) {color dest : Nat} (hdest : dest < n)
    (hmem : color ∉ (plan dest).sources) : (plan dest).runs.filter (·.source == color) = [] := by
  have hlookup : (plan dest).recv.lookup color = none := RunTable.lookup_eq_none_iff.mpr hmem
  rw [(h.sound dest hdest).filter_runs, RunTable.runsOf, hlookup]
  rfl

/-- A color that sends nothing to those that do not expect anything agrees with them. -/
theorem Family.agrees_of_not_mem (h : Family n tag plan) {color dest : Nat} (hdest : dest < n)
    (hsource : color ∉ (plan dest).sources) (hsend : dest ∉ (plan color).destinations) :
    Agrees plan color dest := by
  have hlookup : (plan color).send.lookup dest = none := RunTable.lookup_eq_none_iff.mpr hsend
  rw [Agrees, h.filter_runs_eq_nil hdest hsource, sendsTo, RunTable.runsOf, hlookup]
  rfl

/-- A color that sends something to one that does not expect it does not agree with it. -/
theorem Family.not_agrees_of_mem (h : Family n tag plan) {color dest : Nat} (hcolor : color < n)
    (hsource : color ∉ (plan dest).sources) (hsend : dest ∈ (plan color).destinations) :
    ¬ Agrees plan color dest := by
  obtain ⟨entry, hentry, rfl⟩ := List.mem_map.mp hsend
  have hsound := h.sound color hcolor
  have hdest := hsound.destination_lt _ hsend
  rw [Agrees, h.filter_runs_eq_nil hdest hsource, hsound.sendsTo_of_mem hentry]
  exact fun heq => (hsound.sent _ hentry).nonempty (Summary.total_eq_empty_iff.mp heq)

/-! ### What is found -/

/-- The first element that is found comes before all others, in a list that is in order. -/
theorem not_of_find? {α : Type} {f : α → Nat} {p : α → Bool} {xs : List α}
    (hxs : xs.Pairwise (f · < f ·)) {a : α} (ha : xs.find? p = some a) :
    ∀ b ∈ xs, f b < f a → p b = false := by
  obtain ⟨-, before, after, rfl, hbefore⟩ := List.find?_eq_some_iff_append.mp ha
  intro b hb hlt
  rcases List.mem_append.mp hb with hmem | hmem
  · exact Bool.not_eq_true' _ ▸ hbefore b hmem
  · have hafter := (List.pairwise_append.mp hxs).2.1
    rcases List.mem_cons.mp hmem with rfl | hmem
    · exact absurd hlt (Nat.lt_irrefl _)
    · exact absurd hlt (Nat.lt_asymm ((List.pairwise_cons.mp hafter).1 b hmem))

/-- The destination that is found first expects something, and disagrees. -/
theorem Family.unmet_of_unmetIn (h : Family n tag plan) {color : Nat} {entry : Nat × Summary}
    (hentry : (plan color).unmetIn (told n plan color) = some entry) :
    Verdict n plan color (.error (.reported (disagreement plan color entry.1))) := by
  have hmem := List.mem_of_find?_eq_some hentry
  obtain ⟨hlt, hsource⟩ := mem_keys_told.mp (List.mem_map_of_mem hmem)
  refine .unmet hlt hsource (fun hagrees => ?_) fun other hother hexpects => ?_
  · exact ne_of_unmetIn hentry ((h.eq_total_of_mem_told hmem).trans hagrees.symm)
  · have hkey := mem_keys_told.mpr ⟨Nat.lt_trans hother hlt, hexpects⟩
    obtain ⟨⟨_, s⟩, hs, rfl⟩ := List.mem_map.mp hkey
    have hmet := of_decide_eq_false (not_of_find? (pairwise_told color) hentry _ hs hother)
    exact (not_not.mp hmet).symm.trans (h.eq_total_of_mem_told hs)

/-- Whoever expects something gets it, if none is found who does not. -/
theorem Family.agrees_of_unmetIn (h : Family n tag plan) {color : Nat}
    (hnone : (plan color).unmetIn (told n plan color) = none) :
    ∀ dest < n, color ∈ (plan dest).sources → Agrees plan color dest := by
  intro dest hlt hexpects
  obtain ⟨⟨_, s⟩, hs, rfl⟩ := List.mem_map.mp (mem_keys_told.mpr ⟨hlt, hexpects⟩)
  have heq := List.find?_eq_none.mp hnone _ hs
  rw [decide_eq_true_eq, not_not] at heq
  exact heq.symm.trans (h.eq_total_of_mem_told hs)

theorem Family.not_expected_of_unexpectedIn (h : Family n tag plan) {color : Nat} (hcolor : color < n)
    {entry : Nat × List Run} (hentry : (plan color).unexpectedIn (told n plan color) = some entry) :
    entry ∈ (plan color).send ∧ entry.1 < n ∧ color ∉ (plan entry.1).sources := by
  have hmem := List.mem_of_find?_eq_some hentry
  have hdest := (h.sound color hcolor).destination_lt _ (List.mem_map_of_mem hmem)
  refine ⟨hmem, hdest, fun hsource => ?_⟩
  have hfound := not_contains_of_unexpectedIn hentry
  rw [contains_told_iff.mpr ⟨hdest, hsource⟩] at hfound
  cases hfound

/-- The destination that would get something unexpected and comes first. -/
theorem Family.unexpected_of_unexpectedIn (h : Family n tag plan) {color : Nat} (hcolor : color < n)
    (hmet : ∀ dest < n, color ∈ (plan dest).sources → Agrees plan color dest)
    {entry : Nat × List Run} (hentry : (plan color).unexpectedIn (told n plan color) = some entry) :
    Verdict n plan color (.error (.reported (disagreement plan color entry.1))) := by
  obtain ⟨hmem, -, hsource⟩ := h.not_expected_of_unexpectedIn hcolor hentry
  refine .unexpected (List.mem_map_of_mem hmem) hsource hmet fun other hother hsend => ?_
  obtain ⟨first, hfirst, rfl⟩ := List.mem_map.mp hsend
  have hordered : (plan color).send.Pairwise (·.1 < ·.1) :=
    List.pairwise_map.mp (h.sound color hcolor).destinations_increasing
  have hexpected := not_of_find? hordered hentry first hfirst hother
  exact (contains_told_iff.mp ((Bool.not_eq_false' _).mp hexpected)).2

/-- Whoever does not expect anything gets nothing, if none is found who does. -/
theorem Family.agrees_of_unexpectedIn (h : Family n tag plan) {color : Nat}
    (hnone : (plan color).unexpectedIn (told n plan color) = none) :
    ∀ dest < n, color ∉ (plan dest).sources → Agrees plan color dest := by
  intro dest hlt hsource
  refine h.agrees_of_not_mem hlt hsource fun hsend => ?_
  obtain ⟨entry, hentry, rfl⟩ := List.mem_map.mp hsend
  have hkey := List.find?_eq_none.mp hnone entry hentry
  rw [Bool.not_eq_true', Bool.not_eq_false] at hkey
  exact hsource (contains_told_iff.mp hkey).2

/-- Verification finds what it is to find. -/
theorem Family.verdict_spec (h : Family n tag plan) {color : Nat} (hcolor : color < n) :
    Verdict n plan color (verdict n plan color) := by
  rw [verdict, mismatchIn]
  cases hunmet : (plan color).unmetIn (told n plan color) with
  | some entry =>
    have hverdict := h.unmet_of_unmetIn hunmet
    have htotal := h.eq_total_of_mem_told (List.mem_of_find?_eq_some hunmet)
    simp only [Option.map_some, Option.some_or, htotal, h.color_eq color hcolor]
    exact hverdict
  | none =>
    have hmet := h.agrees_of_unmetIn hunmet
    cases hunexpected : (plan color).unexpectedIn (told n plan color) with
    | some entry =>
      have hverdict := h.unexpected_of_unexpectedIn hcolor hmet hunexpected
      obtain ⟨hentry, hdest, hsource⟩ := h.not_expected_of_unexpectedIn hcolor hunexpected
      rw [disagreement, (h.sound color hcolor).sendsTo_of_mem hentry, h.filter_runs_eq_nil hdest hsource] at hverdict
      simp only [Option.map_some, Option.map_none, Option.none_or, h.color_eq color hcolor]
      exact hverdict
    | none =>
      refine .agreed fun dest hdest => ?_
      by_cases hsource : color ∈ (plan dest).sources
      · exact hmet dest hdest hsource
      · exact h.agrees_of_unexpectedIn hunexpected dest hdest hsource

/-- No mismatch is found exactly if the color agrees with all others. -/
theorem Family.eq_ok_iff (h : Family n tag plan) {color : Nat} (hcolor : color < n)
    {result : Except Failure Unit} (hresult : Verdict n plan color result) :
    result = .ok () ↔ ∀ dest < n, Agrees plan color dest := by
  cases hresult with
  | agreed hagrees => exact iff_of_true rfl hagrees
  | unmet hdest _ hnot _ => exact iff_of_false nofun fun hagrees => hnot (hagrees _ hdest)
  | unexpected hsend hsource _ _ =>
    refine iff_of_false nofun fun hagrees => h.not_agrees_of_mem hcolor hsource hsend ?_
    exact hagrees _ ((h.sound color hcolor).destination_lt _ hsend)

/-! ### How verification ends -/

/-- Every color learns what the others expect from it. -/
theorem Family.told_completes (h : Family n tag plan) (hlist : 24 * n ≤ Word.bufferLimit) :
    Comm.Completes n (fun r => allToAll Summary.codec.packer.unpack ⟨r, n⟩ AllToAll.defaultTag
      (Outgoing.packing Summary.codec fun dest => ((List.range n).map fun source =>
        ((plan r).recv.lookup source).map Summary.total).getD dest none)) (told n plan) := by
  have hitem : ∀ r, ∀ s < n, ((List.range n).map fun source =>
      ((plan r).recv.lookup source).map Summary.total).getD s none =
        ((plan r).recv.lookup s).map Summary.total := by
    intro r s hs
    simp [List.getD_eq_getElem?_getD, hs]
  have hlawful : ∀ r < n, ∀ s < n, ∀ a, ((List.range n).map fun source =>
      ((plan r).recv.lookup source).map Summary.total).getD s none = some a →
        Summary.codec.LawfulAt a ∧ Summary.codec.size a ≠ 0 := by
    intro r hr s hs a ha
    rw [hitem r s hs] at ha
    obtain ⟨runs, hruns, rfl⟩ := Option.map_eq_some_iff.mp ha
    have hsound := h.sound r hr
    exact ⟨(hsound.received _ (RunTable.mem_of_lookup hruns)).lawfulAt hsound.slots_lt,
      Nat.succ_ne_zero 15⟩
  have hcount : ∀ r s, (Outgoing.packing Summary.codec fun dest => ((List.range n).map fun source =>
      ((plan r).recv.lookup source).map Summary.total).getD dest none).count s ≤ 16 := by
    intro r s
    simp only [Outgoing.packing]
    cases ((List.range n).map fun source =>
        ((plan r).recv.lookup source).map Summary.total).getD s none with
    | none => exact Nat.zero_le 16
    | some a => exact Nat.le_refl 16
  have hwords : 8 * n ≤ Word.bufferLimit := Nat.le_trans (Nat.mul_le_mul_right _ (by decide)) hlist
  refine Completes.congr (allToAll_completes _ _ hwords fun r _ s _ => ?_) (fun _ _ => rfl)
    fun s hs => ?_
  · exact Nat.le_trans (Nat.succ_le_succ (hcount r s)) (by decide)
  · rw [AllToAll.outcome_packing hs hlawful, told]
    simp only [hitem _ s hs, Option.map_map]
    rfl

/-- A group that verifies its plans ends with the verdicts. -/
theorem Family.verify_ends (h : Family n tag plan) (hlist : 24 * n ≤ Word.bufferLimit) :
    Completes n (fun r => ((plan r).verify ⟨r, n⟩).run) (verdict n plan) := by
  have hitems : Comm.Completes n (fun r => liftM ((plan r).expectations ⟨r, n⟩))
      fun r => (List.range n).map fun source => ((plan r).recv.lookup source).map Summary.total :=
    .of_silent fun r hr => .of_fault ((h.sound r hr).expectations_eq_ok r hlist)
  have hpacked : Comm.Completes n
      (fun r => liftM (reportCodec (Outgoing.ofItems Summary.codec.packer
        ((List.range n).map fun source => ((plan r).recv.lookup source).map Summary.total))))
      fun r => Outgoing.packing Summary.codec fun dest => ((List.range n).map fun source =>
        ((plan r).recv.lookup source).map Summary.total).getD dest none := by
    refine .of_silent fun r _ => .of_error ?_
    rw [Outgoing.ofItems_eq_ok]
    rfl
  refine hitems.andThen (hpacked.andThen ((h.told_completes hlist).andThen ?_))
  refine .of_silent fun r hr => ?_
  refine (Comm.Yields.of_fault ((h.sound r hr).mismatch?_eq_ok _)).andThen ?_
  rw [verdict]
  cases (plan r).mismatchIn (told n plan r) with
  | none => exact .refl _
  | some m => exact (Comm.Yields.lift (Program.performs_record ..)).andThen (.refl _)

/-- A group that agrees verifies all of its plans. -/
theorem Family.verify_completes (h : Family n tag plan) (hlist : 24 * n ≤ Word.bufferLimit)
    (hagrees : ∀ r < n, ∀ dest < n, Agrees plan r dest) :
    Comm.Completes n (fun r => (plan r).verify ⟨r, n⟩) fun _ => () :=
  Completes.congr (h.verify_ends hlist) (fun _ _ => rfl) fun r hr =>
    ((h.eq_ok_iff hr (h.verdict_spec hr)).mpr (hagrees r hr)).symm

end

end CopyPlan

end HaloMesh
