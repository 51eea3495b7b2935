-- SUMMARY: Runs element by element: rows are visited in storage order, and merging keeps the elements.
import HaloMesh.Ghost.Interval
import HaloMesh.Proofs.Grid

/-!
# Elements of ghost runs

A run stands for one copy per slot. Merging adjoining runs changes how the copies are grouped, and
neither the copies nor their order. The rows of a slab are visited in the order in which the cells of
their box are numbered, so the elements of all rows are the cells of the slab in storage order.
-/

namespace HaloMesh

/-- One ghost slot and the slot that holds its value. -/
structure Fill where
  dest : Nat
  source : Nat
  src : Nat
  deriving DecidableEq, Repr, Inhabited

namespace Run

/-- The copies that a run stands for. -/
def fills (r : Run) : List Fill :=
  (List.range r.length).map fun i => ⟨r.dest + i, r.source, r.src + i⟩

/-- Both ends of the run are sizes. -/
def Fits (r : Run) : Prop := r.dest + r.length < Word.limit ∧ r.src + r.length < Word.limit

/-! ## Merging -/

/-- Whether a run continues another on both sides, without range checks. -/
def Adjoins (r next : Run) : Prop :=
  r.source = next.source ∧ r.dest + r.length = next.dest ∧ r.src + r.length = next.src

instance (r next : Run) : Decidable (r.Adjoins next) := inferInstanceAs (Decidable (_ ∧ _ ∧ _))

/-- Add a run to those found so far, of which the latest comes first, without range checks. -/
def join (found : List Run) (next : Run) : List Run :=
  match found with
  | [] => [next]
  | last :: earlier =>
    if last.Adjoins next then { last with length := last.length + next.length } :: earlier
    else next :: last :: earlier

/-- The runs that result when runs are added one after the other, the latest first. -/
def joinAll (runs : List Run) : List Run := runs.foldl join []

theorem continues_eq_ok {r next : Run} (h : r.Fits) :
    r.continues next = .ok (decide (r.Adjoins next)) := by
  by_cases hsource : r.source = next.source
  · by_cases hdest : r.dest + r.length = next.dest
    · simp only [continues, Word.add_of_lt h.1, Word.add_of_lt h.2]
      by_cases hsrc : r.src + r.length = next.src
      · simp [hsource, hdest, hsrc, Adjoins]
      · simp [hsource, hdest, hsrc, Adjoins]
    · simp [continues, Word.add_of_lt h.1, hsource, hdest, Adjoins]
  · simp [continues, hsource, Adjoins]

theorem gives_continues (r next : Run) :
    Checked.Gives (r.continues next) (decide (r.Adjoins next)) := by
  by_cases hsource : r.source = next.source
  · by_cases hdest : r.dest + r.length = next.dest
    · simp only [continues, hsource, ne_eq, not_true_eq_false, if_false]
      refine (Word.gives_add r.dest r.length).bind ?_
      rw [if_neg (not_not_intro hdest)]
      refine (Word.gives_add r.src r.length).bind (Checked.Gives.of_eq (congrArg Except.ok ?_))
      simp [Adjoins, hsource, hdest, Bool.beq_eq_decide_eq]
    · simp only [continues, hsource, ne_eq, not_true_eq_false, if_false]
      refine (Word.gives_add r.dest r.length).bind ?_
      rw [if_pos hdest]
      exact .of_eq (congrArg Except.ok (decide_eq_false fun h => hdest h.2.1).symm)
  · rw [continues, if_pos hsource]
    exact .of_eq (congrArg Except.ok (decide_eq_false fun h => hsource h.1).symm)

theorem gives_push (found : List Run) (next : Run) :
    Checked.Gives (push found next) (join found next) := by
  cases found with
  | nil => exact .ok [next]
  | cons last earlier =>
    refine (gives_continues last next).bind ?_
    rw [join]
    by_cases hadjoin : last.Adjoins next
    · rw [if_pos hadjoin, decide_eq_true hadjoin]
      exact (Word.gives_add _ _).bind (.ok _)
    · rw [if_neg hadjoin, decide_eq_false hadjoin]
      exact .ok _

/-- A merged run ends where the added one does. -/
theorem Adjoins.fits {r next : Run} (h : r.Adjoins next) (hnext : next.Fits) :
    { r with length := r.length + next.length : Run }.Fits := by
  obtain ⟨-, hdest, hsrc⟩ := h
  obtain ⟨hd, hs⟩ := hnext
  rw [← hdest] at hd
  rw [← hsrc] at hs
  rw [Nat.add_assoc] at hd hs
  exact ⟨hd, hs⟩

theorem push_eq_ok {found : List Run} {next : Run} (hfound : ∀ r ∈ found, r.Fits)
    (hnext : next.Fits) :
    push found next = .ok (join found next) ∧ ∀ r ∈ join found next, r.Fits := by
  cases found with
  | nil =>
    refine ⟨rfl, fun r hr => ?_⟩
    cases List.mem_singleton.mp hr
    exact hnext
  | cons last earlier =>
    rw [push, continues_eq_ok (hfound last (by simp)), join]
    by_cases hadjoin : last.Adjoins next
    · have hfits := hadjoin.fits hnext
      have hlength : last.length + next.length < Word.limit :=
        Nat.lt_of_le_of_lt (Nat.le_add_left _ _) hfits.1
      simp only [hadjoin, if_true, decide_true, Checked.ok_bind, Word.add_of_lt hlength,
        Checked.pure_eq_ok, List.forall_mem_cons, true_and]
      exact ⟨hfits, fun r hr => hfound r (by simp [hr])⟩
    · simp only [hadjoin, if_false, decide_false, Bool.false_eq_true, Checked.ok_bind,
        Checked.pure_eq_ok, List.forall_mem_cons, true_and]
      exact ⟨hnext, hfound last (by simp), fun r hr => hfound r (by simp [hr])⟩

theorem foldlM_push_eq_ok {runs : List Run} (h : ∀ r ∈ runs, r.Fits) :
    runs.foldlM push [] = .ok (joinAll runs) :=
  (Checked.foldlM_eq_ok (fun found => ∀ r ∈ found, r.Fits) (by simp)
    fun next hnext _ hfound => push_eq_ok hfound (h next hnext)).1

/-- What holds of all runs and is kept when two are merged holds of the merged runs. -/
theorem forall_mem_joinAll {P : Run → Prop} {runs : List Run} (h : ∀ r ∈ runs, P r)
    (hmerge : ∀ r next, P r → P next → P { r with length := r.length + next.length }) :
    ∀ r ∈ joinAll runs, P r := by
  have hfold : ∀ (runs found : List Run), (∀ r ∈ runs, P r) → (∀ r ∈ found, P r) →
      ∀ r ∈ runs.foldl join found, P r := by
    intro runs
    induction runs with
    | nil => exact fun found _ hfound => hfound
    | cons next runs ih =>
      intro found hruns hfound
      refine ih _ (fun r hr => hruns r (by simp [hr])) fun r hr => ?_
      have hnext := hruns next (by simp)
      cases found with
      | nil =>
        cases List.mem_singleton.mp hr
        exact hnext
      | cons last earlier =>
        rw [join] at hr
        split at hr
        · rcases List.mem_cons.mp hr with rfl | hr
          · exact hmerge last next (hfound last (by simp)) hnext
          · exact hfound r (by simp [hr])
        · rcases List.mem_cons.mp hr with rfl | hr
          · exact hnext
          · exact hfound r hr
  exact hfold runs [] h (by simp)

/-- The copies of a run are those of its first part and those of the rest. -/
theorem fills_add (r : Run) (n : Nat) : { r with length := r.length + n : Run }.fills =
    r.fills ++ fills ⟨r.dest + r.length, n, r.source, r.src + r.length⟩ := by
  simp only [fills, List.range_add, List.map_append, List.map_map, Function.comp_def, Nat.add_assoc]

theorem fills_join (found : List Run) (next : Run) :
    (join found next).reverse.flatMap fills = found.reverse.flatMap fills ++ next.fills := by
  cases found with
  | nil => simp [join]
  | cons last earlier =>
    rw [join]
    split
    · rename_i hadjoin
      obtain ⟨hsource, hdest, hsrc⟩ := hadjoin
      rw [List.reverse_cons, List.flatMap_append, List.flatMap_singleton, fills_add,
        List.reverse_cons, List.flatMap_append, List.flatMap_singleton, hsource, hdest, hsrc,
        List.append_assoc]
    · simp

/-- A run whose slots lie in storage ends in storage. -/
theorem stop_le_of_fills {r : Run} (hlength : 0 < r.length) {n m : Nat}
    (h : ∀ fill ∈ r.fills, fill.dest < n ∧ fill.src < m) :
    r.dest + r.length ≤ n ∧ r.src + r.length ≤ m := by
  obtain ⟨hdest, hsrc⟩ := h ⟨r.dest + (r.length - 1), r.source, r.src + (r.length - 1)⟩
    (List.mem_map.mpr ⟨r.length - 1, List.mem_range.mpr (by omega), rfl⟩)
  simp only at hdest hsrc
  omega

/-- Merging keeps the copies and their order. -/
theorem fills_joinAll (runs : List Run) :
    (joinAll runs).reverse.flatMap fills = runs.flatMap fills := by
  have hfold : ∀ (runs found : List Run), (runs.foldl join found).reverse.flatMap fills =
      found.reverse.flatMap fills ++ runs.flatMap fills := by
    intro runs
    induction runs with
    | nil => simp
    | cons next runs ih =>
      intro found
      rw [List.foldl_cons, ih, fills_join, List.flatMap_cons, List.append_assoc]
  rw [joinAll, hfold, List.reverse_nil, List.flatMap_nil, List.nil_append]

end Run

/-! ## Visiting rows -/

namespace Ghost

section
variable {σ : Type} {width : Nat} {widths offsets : List Nat}

theorem rowsFrom_eq (visit : List Nat → σ → Except Fault σ) (state : σ) :
    rowsFrom widths visit offsets state = (do
      let state ← visit offsets state
      match advance widths offsets with
      | some next => rowsFrom widths visit next state
      | none => return state) := by
  rw [rowsFrom]
  refine bind_congr fun state => ?_
  cases advance widths offsets <;> rfl

/-- The first wheel goes from where it is up to its width, and then the others take a turn. -/
theorem rowsFrom_cons (visit : List Nat → σ → Except Fault σ) {i n : Nat} (hwidth : i + (n + 1) = width)
    (state : σ) : rowsFrom (width :: widths) visit (i :: offsets) state = (do
      let state ← countFrom (fun i => visit (i :: offsets)) (n + 1) i state
      match advance widths offsets with
      | some next => rowsFrom (width :: widths) visit (0 :: next) state
      | none => return state) := by
  induction n generalizing i state with
  | zero =>
    rw [rowsFrom_eq, advance, if_neg (by omega)]
    simp only [countFrom, bind_pure]
    refine bind_congr fun state => ?_
    cases advance widths offsets <;> rfl
  | succ n ih =>
    rw [rowsFrom_eq, advance, if_pos (by omega)]
    simp only [ih (show i + 1 + (n + 1) = width by omega)]
    rw [countFrom, bind_assoc]

/-- An odometer with one more wheel in front is a loop over that wheel inside a loop over the others. -/
theorem rowsFrom_zero_cons (visit : List Nat → σ → Except Fault σ) (hwidth : 0 < width) (state : σ) :
    rowsFrom (width :: widths) visit (0 :: offsets) state =
      rowsFrom widths (fun offsets => countUpTo width fun i => visit (i :: offsets)) offsets state := by
  obtain ⟨n, rfl⟩ := Nat.exists_eq_add_of_lt hwidth
  rw [Nat.zero_add]
  induction h : turnsLeft widths offsets using Nat.strong_induction_on generalizing offsets state with
  | _ turns ih =>
    rw [rowsFrom_cons visit (Nat.zero_add _), rowsFrom_eq, countUpTo]
    refine bind_congr fun state => ?_
    cases hnext : advance widths offsets with
    | none => rfl
    | some next => exact ih _ (h ▸ turnsLeft_advance hnext) state rfl

/-- The rows of a slab are visited in the order of the cells of their box. -/
theorem forRows_eq_foldlM (hwidths : ∀ width ∈ widths, 0 < width)
    (visit : List Nat → σ → Except Fault σ) (state : σ) :
    forRows widths visit state =
      (Grid.cells widths).foldlM (fun state offsets => visit offsets state) state := by
  induction widths generalizing visit state with
  | nil => rw [forRows, List.map_nil, rowsFrom_eq, Grid.cells, List.foldlM_cons]; rfl
  | cons width widths ih =>
    have hrest := ih fun w hw => hwidths w (List.mem_cons_of_mem _ hw)
    rw [forRows, List.map_cons, rowsFrom_zero_cons visit (hwidths width List.mem_cons_self), ← forRows,
      hrest, Grid.cells, Checked.foldlM_flatMap]
    simp only [countUpTo_eq_foldlM, List.foldlM_map]

end

/-- A slab has rows of positive width along every axis. -/
theorem widths_pos {spans : List Span} (hfull : ¬ spans.any (·.width == 0) = true) :
    ∀ width ∈ spans.tail.map (·.width), 0 < width := by
  intro width hwidth
  obtain ⟨span, hspan, rfl⟩ := List.mem_map.mp hwidth
  refine Nat.pos_of_ne_zero fun hzero => hfull ?_
  exact List.any_eq_true.mpr ⟨span, List.mem_of_mem_tail hspan, beq_iff_eq.mpr hzero⟩

end Ghost

end HaloMesh
