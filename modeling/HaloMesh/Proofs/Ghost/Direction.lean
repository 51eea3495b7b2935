-- SUMMARY: Steps and directions: where they lead, that the opposite one leads back, and which ones are listed.
import HaloMesh.Ghost.Direction
import HaloMesh.Proofs.Grid

/-!
# Directions

On a ring of positions a step back and a step ahead undo each other, also when the ring has one or
two positions. A direction is a step per axis, so the opposite direction leads back from a neighbor
to the color it was reached from.
-/

namespace HaloMesh

/-! ## Steps -/

namespace Step

/-- Where a step leads, without range checks. -/
def target (step : Step) (c colors : Nat) : Nat :=
  match step with
  | .back => (c + colors - 1) % colors
  | .stay => c
  | .ahead => (c + 1) % colors

def opposite : Step → Step
  | .back => .ahead
  | .stay => .stay
  | .ahead => .back

theorem mem_all (step : Step) : step ∈ all := by
  cases step <;> simp [all]

@[simp] theorem opposite_opposite (step : Step) : step.opposite.opposite = step := by
  cases step <;> rfl

theorem opposite_eq_stay_iff {step : Step} : step.opposite = .stay ↔ step = .stay := by
  cases step <;> simp [opposite]

variable {c colors : Nat}

theorem target_lt (step : Step) (hc : c < colors) : step.target c colors < colors := by
  cases step with
  | back => exact Nat.mod_lt _ (by omega)
  | stay => exact hc
  | ahead => exact Nat.mod_lt _ (by omega)

theorem target_back_zero (hcolors : 0 < colors) : back.target 0 colors = colors - 1 := by
  rw [target, Nat.zero_add]
  exact Nat.mod_eq_of_lt (by omega)

theorem target_back_succ (hc : c + 1 < colors) : back.target (c + 1) colors = c := by
  have hsum : c + 1 + colors - 1 = c + colors := by omega
  rw [target, hsum, Nat.add_mod_right]
  exact Nat.mod_eq_of_lt (by omega)

theorem target_ahead_of_lt (hc : c + 1 < colors) : ahead.target c colors = c + 1 :=
  Nat.mod_eq_of_lt hc

theorem target_ahead_last (hc : c + 1 = colors) : ahead.target c colors = 0 := by
  rw [target, hc, Nat.mod_self]

/-- The opposite step leads back. -/
theorem target_opposite (step : Step) (hc : c < colors) :
    step.opposite.target (step.target c colors) colors = c := by
  cases step with
  | stay => rfl
  | back =>
    rcases c with - | c
    · rw [target_back_zero hc]
      exact target_ahead_last (by omega)
    · rw [target_back_succ hc]
      exact target_ahead_of_lt hc
  | ahead =>
    rcases Nat.lt_or_ge (c + 1) colors with hlt | hge
    · rw [target_ahead_of_lt hlt]
      exact target_back_succ hlt
    · have hlast : c + 1 = colors := by omega
      rw [target_ahead_last hlast, opposite, target_back_zero (by omega)]
      omega

theorem move_eq_ok (step : Step) (hc : c < colors) (hcolors : colors < 2 ^ 63) :
    step.move c colors = .ok (step.target c colors) := by
  have hpos : 0 < colors := by omega
  have hc' : c < 2 ^ 63 := Nat.lt_trans hc hcolors
  cases step with
  | back =>
    rw [move, Word.add_of_lt (Word.add_lt_limit hc' hcolors), Checked.ok_bind, Word.sub_of_le (by omega),
      Checked.ok_bind, Word.mod_of_pos hpos, target]
  | stay => rfl
  | ahead =>
    rw [move, Word.add_of_lt (Word.add_lt_limit hc' (by decide)), Checked.ok_bind,
      Word.mod_of_pos hpos, target]

theorem gives_move (step : Step) (c colors : Nat) :
    Checked.Gives (step.move c colors) (step.target c colors) := by
  cases step with
  | back =>
    exact (Word.gives_add c colors).bind ((Word.gives_sub _ 1).bind (Word.gives_mod _ colors))
  | stay => exact .ok c
  | ahead => exact (Word.gives_add c 1).bind (Word.gives_mod _ colors)

end Step

/-! ## Directions -/

namespace Direction

/-- Where a direction leads in the color grid, without range checks. -/
def target : Direction → List Nat → List Nat → List Nat
  | step :: direction, c :: position, colors :: grid =>
    step.target c colors :: target direction position grid
  | _, _, _ => []

def opposite (direction : Direction) : Direction := direction.map Step.opposite

theorem move_eq_ok {grid position : List Nat} (h : Grid.Within grid position)
    (hgrid : ∀ n ∈ grid, n < 2 ^ 63) (direction : Direction) :
    direction.move position grid = .ok (direction.target position grid) := by
  induction h generalizing direction with
  | nil => cases direction <;> rfl
  | @cons colors c grid position hc _ ih =>
    cases direction with
    | nil => rfl
    | cons step direction =>
      rw [move, step.move_eq_ok hc (hgrid colors (by simp)), Checked.ok_bind,
        ih (fun n hn => hgrid n (by simp [hn])) direction]
      rfl

theorem gives_move (direction : Direction) (position grid : List Nat) :
    Checked.Gives (direction.move position grid) (direction.target position grid) := by
  induction direction generalizing position grid with
  | nil => exact .ok []
  | cons step direction ih =>
    cases position with
    | nil => exact .ok []
    | cons c position =>
      cases grid with
      | nil => exact .ok []
      | cons colors grid =>
        exact (step.gives_move c colors).bind ((ih position grid).bind (.ok _))

theorem within_target {grid position : List Nat} (h : Grid.Within grid position)
    {direction : Direction} (hlength : direction.length = grid.length) :
    Grid.Within grid (direction.target position grid) := by
  induction h generalizing direction with
  | nil =>
    rw [List.eq_nil_of_length_eq_zero hlength]
    exact .nil
  | cons hc _ ih =>
    cases direction with
    | nil => cases hlength
    | cons step direction => exact .cons (step.target_lt hc) (ih (Nat.succ.inj hlength))

theorem target_opposite {grid position : List Nat} (h : Grid.Within grid position)
    {direction : Direction} (hlength : direction.length = grid.length) :
    direction.opposite.target (direction.target position grid) grid = position := by
  induction h generalizing direction with
  | nil =>
    rw [List.eq_nil_of_length_eq_zero hlength]
    rfl
  | cons hc _ ih =>
    cases direction with
    | nil => cases hlength
    | cons step direction =>
      exact List.cons_eq_cons.mpr ⟨step.target_opposite hc, ih (Nat.succ.inj hlength)⟩

/-! ## Listing the directions -/

theorem mem_combinations {d : Nat} {direction : Direction} :
    direction ∈ combinations d ↔ direction.length = d := by
  induction d generalizing direction with
  | zero => exact List.mem_singleton.trans List.length_eq_zero_iff.symm
  | succ d ih =>
    simp only [combinations, List.mem_flatMap, List.mem_map, ih]
    constructor
    · rintro ⟨step, _, rest, hrest, rfl⟩
      exact congrArg Nat.succ hrest
    · intro hlength
      obtain ⟨step, rest, rfl⟩ := List.exists_cons_of_length_eq_add_one hlength
      exact ⟨step, step.mem_all, rest, Nat.succ.inj hlength, rfl⟩

theorem nodup_combinations (d : Nat) : (combinations d).Nodup := by
  induction d with
  | zero => exact List.nodup_singleton _
  | succ d ih =>
    rw [combinations, List.nodup_flatMap]
    refine ⟨fun step _ => ih.map fun _ _ h => (List.cons.inj h).2, ?_⟩
    refine List.Nodup.pairwise_of_forall_ne (by decide) ?_
    intro step _ other _ hne direction hdirection hother
    obtain ⟨_, _, rfl⟩ := List.mem_map.mp hdirection
    obtain ⟨_, _, h⟩ := List.mem_map.mp hother
    exact hne (List.cons.inj h).1.symm

theorem mem_all {d : Nat} {direction : Direction} :
    direction ∈ all d ↔ direction.length = d ∧ ∃ step ∈ direction, step ≠ .stay := by
  rw [all, List.mem_filter, mem_combinations]
  simp

theorem nodup_all (d : Nat) : (all d).Nodup := (nodup_combinations d).filter _

theorem opposite_mem_all {d : Nat} {direction : Direction} (h : direction ∈ all d) :
    direction.opposite ∈ all d := by
  rw [mem_all] at h ⊢
  obtain ⟨hlength, step, hstep, hne⟩ := h
  refine ⟨by rw [opposite, List.length_map, hlength], step.opposite, List.mem_map_of_mem hstep, ?_⟩
  exact fun heq => hne (Step.opposite_eq_stay_iff.mp heq)

end Direction

end HaloMesh
