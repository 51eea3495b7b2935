-- SUMMARY: Positions in a box and their numbers: both directions are inverse, and all cells can be listed in order.
import HaloMesh.Coloring.IndexColoring
import HaloMesh.Proofs.Checked
import Mathlib.Data.List.Nodup

/-!
# Numbering the cells of a box

`Grid.Within` says that a position lies inside a box. On such positions `Grid.index` never leaves
the range of sizes if the box does not, its value is `number`, and `position` is its inverse. So
different positions have different numbers, and the numbers of a box are those below its volume.
`cells` lists all positions in the order of their numbers, axis 0 fastest.
-/

namespace HaloMesh.Grid

/-- A position has one coordinate below the size of each axis. -/
abbrev Within (sizes position : List Nat) : Prop :=
  List.Forall₂ (fun size c => c < size) sizes position

/-- The number of a position, without range checks. -/
def number : List Nat → List Nat → Nat
  | size :: sizes, c :: cs => number sizes cs * size + c
  | _, _ => 0

/-- The position of a number, without range checks. -/
def position : List Nat → Nat → List Nat
  | [], _ => []
  | size :: sizes, n => n % size :: position sizes (n / size)

@[simp] theorem length_position (sizes : List Nat) (n : Nat) :
    (position sizes n).length = sizes.length := by
  induction sizes generalizing n with
  | nil => rfl
  | cons size sizes ih => simp [position, ih]

/-! ## Bounds -/

/-- A box that holds a position has no axis of size zero. -/
theorem Within.pos {sizes cs : List Nat} (h : Within sizes cs) : ∀ size ∈ sizes, 0 < size := by
  induction h with
  | nil => simp
  | cons hc _ ih =>
    intro size hmem
    cases hmem with
    | head => omega
    | tail _ hmem => exact ih size hmem

theorem Within.lt_of_sizes_lt {sizes cs : List Nat} (h : Within sizes cs) {n : Nat}
    (hsizes : ∀ size ∈ sizes, size < n) : ∀ c ∈ cs, c < n := by
  induction h with
  | nil => simp
  | @cons size c _ _ hc _ ih =>
    intro c' hmem
    cases hmem with
    | head => exact Nat.lt_trans hc (hsizes size (by simp))
    | tail _ hmem => exact ih (fun s hs => hsizes s (by simp [hs])) c' hmem

theorem number_lt_prod {sizes cs : List Nat} (h : Within sizes cs) :
    number sizes cs < sizes.prod := by
  induction h with
  | nil => simp [number]
  | @cons size c sizes cs hc _ ih =>
    have hrow : (number sizes cs + 1) * size ≤ sizes.prod * size := Nat.mul_le_mul_right _ ih
    rw [List.prod_cons, number, Nat.mul_comm size]
    rw [Nat.add_mul, Nat.one_mul] at hrow
    omega

theorem within_position {sizes : List Nat} (hpos : ∀ size ∈ sizes, 0 < size) (n : Nat) :
    Within sizes (position sizes n) := by
  induction sizes generalizing n with
  | nil => exact .nil
  | cons size sizes ih =>
    exact .cons (Nat.mod_lt _ (hpos size (by simp))) (ih (fun s hs => hpos s (by simp [hs])) _)

/-! ## Inverse laws -/

theorem position_number {sizes cs : List Nat} (h : Within sizes cs) :
    position sizes (number sizes cs) = cs := by
  induction h with
  | nil => rfl
  | @cons size c sizes cs hc _ ih =>
    have hdiv : (number sizes cs * size + c) / size = number sizes cs := by
      rw [Nat.mul_comm, Nat.mul_add_div (by omega), Nat.div_eq_of_lt hc, Nat.add_zero]
    have hmod : (number sizes cs * size + c) % size = c := by
      rw [Nat.mul_comm, Nat.mul_add_mod, Nat.mod_eq_of_lt hc]
    rw [number, position, hdiv, hmod, ih]

theorem number_position {sizes : List Nat} {n : Nat} (h : n < sizes.prod) :
    number sizes (position sizes n) = n := by
  induction sizes generalizing n with
  | nil =>
    rw [List.prod_nil] at h
    exact (Nat.lt_one_iff.mp h).symm
  | cons size sizes ih =>
    have hdiv : n / size < sizes.prod := Nat.div_lt_of_lt_mul (by rwa [List.prod_cons] at h)
    rw [position, number, ih hdiv, Nat.mul_comm]
    exact Nat.div_add_mod n size

/-- Different positions of a box have different numbers. -/
theorem number_inj {sizes cs ds : List Nat} (hc : Within sizes cs) (hd : Within sizes ds)
    (h : number sizes cs = number sizes ds) : cs = ds := by
  rw [← position_number hc, h, position_number hd]

/-- Moving along axis 0 moves the number by as much. -/
theorem number_cons_add (size : Nat) (sizes : List Nat) (c i : Nat) (cs : List Nat) :
    number (size :: sizes) ((c + i) :: cs) = number (size :: sizes) (c :: cs) + i := by
  rw [number, number, Nat.add_assoc]

/-! ## Checked arithmetic -/

theorem coords_eq_ok {sizes : List Nat} (hpos : ∀ size ∈ sizes, 0 < size) (n : Nat) :
    coords sizes n = .ok (position sizes n) := by
  induction sizes generalizing n with
  | nil => rfl
  | cons size sizes ih =>
    rw [coords, Word.mod_of_pos (hpos size (by simp)), Checked.ok_bind,
      ih (fun s hs => hpos s (by simp [hs]))]
    rfl

theorem length_of_coords {sizes cs : List Nat} {n : Nat} (h : coords sizes n = .ok cs) :
    cs.length = sizes.length := by
  induction sizes generalizing n cs with
  | nil =>
    cases h
    rfl
  | cons size sizes ih =>
    simp only [coords, Checked.bind_eq_ok_iff, Checked.pure_eq_ok, Except.ok.injEq] at h
    obtain ⟨_, _, rest, hrest, rfl⟩ := h
    rw [List.length_cons, List.length_cons, ih hrest]

/-- The number of a position is computed without a fault if the volume of the box is a size. -/
theorem index_eq_ok {sizes cs : List Nat} (h : Within sizes cs) (hprod : sizes.prod < Word.limit) :
    index sizes cs = .ok (number sizes cs) := by
  induction h with
  | nil => rfl
  | @cons size c sizes cs hc hrest ih =>
    have hwithin : Within (size :: sizes) (c :: cs) := .cons hc hrest
    have hlt : number sizes cs * size + c < Word.limit :=
      Nat.lt_trans (number_lt_prod hwithin) hprod
    have htail : sizes.prod < Word.limit := by
      rw [List.prod_cons] at hprod
      exact Nat.lt_of_le_of_lt (Nat.le_mul_of_pos_left _ (by omega)) hprod
    rw [index, ih htail, Checked.ok_bind, Word.mul_of_lt (by omega), Checked.ok_bind,
      Word.add_of_lt hlt, number]

theorem gives_index (sizes cs : List Nat) : Checked.Gives (index sizes cs) (number sizes cs) := by
  induction sizes generalizing cs with
  | nil => exact .ok 0
  | cons size sizes ih =>
    cases cs with
    | nil => exact .ok 0
    | cons c cs =>
      exact (ih cs).bind ((Word.gives_mul _ size).bind (Word.gives_add _ c))

/-! ## Listing the cells -/

/-- All positions of a box, axis 0 running fastest. -/
def cells : List Nat → List (List Nat)
  | [] => [[]]
  | size :: sizes => (cells sizes).flatMap fun cs => (List.range size).map (· :: cs)

theorem mem_cells {sizes cs : List Nat} : cs ∈ cells sizes ↔ Within sizes cs := by
  induction sizes generalizing cs with
  | nil => exact List.mem_singleton.trans List.forall₂_nil_left_iff.symm
  | cons size sizes ih =>
    simp only [cells, List.mem_flatMap, List.mem_map, List.mem_range, ih,
      List.forall₂_cons_left_iff]
    constructor
    · rintro ⟨rest, hrest, c, hc, rfl⟩
      exact ⟨c, rest, hc, hrest, rfl⟩
    · rintro ⟨c, rest, hc, hrest, rfl⟩
      exact ⟨rest, hrest, c, hc, rfl⟩

theorem nodup_cells (sizes : List Nat) : (cells sizes).Nodup := by
  induction sizes with
  | nil => simp [cells]
  | cons size sizes ih =>
    rw [cells, List.nodup_flatMap]
    refine ⟨fun cs _ => List.nodup_range.map fun c d h => (List.cons.inj h).1, ?_⟩
    refine ih.imp fun hne => ?_
    -- Rows of different remaining positions share no cell.
    intro cs hcs hds
    obtain ⟨c, _, rfl⟩ := List.mem_map.mp hcs
    obtain ⟨d, _, h⟩ := List.mem_map.mp hds
    exact hne (List.cons.inj h).2.symm

/-! ## Storage slots -/

/-- The number of a position is built from the last axis on, each time multiplied by a size and increased
by a coordinate. -/
theorem index_eq_foldlM (sizes cs : List Nat) : index sizes cs =
    (sizes.zip cs).reverse.foldlM (fun n (size, c) => do Word.add (← Word.mul n size) c) 0 := by
  induction sizes generalizing cs with
  | nil => rfl
  | cons size sizes ih =>
    cases cs with
    | nil => rfl
    | cons c cs =>
      rw [index, ih, List.zip_cons_cons, List.reverse_cons, List.foldlM_append]
      simp only [List.foldlM_cons, List.foldlM_nil, bind_pure]

/-- The positions of a box and the numbers below its volume correspond one to one, and storage of these
extents is numbered alike. -/
structure Numbered (sizes : List Nat) : Prop where
  coords : ∀ n < sizes.prod, ∃ cs, coords sizes n = .ok cs ∧ Within sizes cs ∧ index sizes cs = .ok n
  index : ∀ cs, Within sizes cs → ∃ n < sizes.prod, index sizes cs = .ok n ∧ Grid.coords sizes n = .ok cs
  index_eq : ∀ cs, Grid.index sizes cs =
    (sizes.zip cs).reverse.foldlM (fun n (size, c) => do Word.add (← Word.mul n size) c) 0
  linear : ∀ ic : IndexColoring, ic.extents = sizes → ∀ cs, ic.linear cs = Grid.index sizes cs
  linear_inj : ∀ ic : IndexColoring, ic.extents = sizes → ∀ cs ds, Within sizes cs → Within sizes ds →
    ic.linear cs = ic.linear ds → cs = ds
  linear_surj : ∀ ic : IndexColoring, ic.extents = sizes → ∀ n < sizes.prod,
    ∃ cs, Within sizes cs ∧ ic.linear cs = .ok n
  /-- A step along axis 0 leads to the next slot. -/
  linear_succ : ∀ ic : IndexColoring, ic.extents = sizes → ∀ c cs, Within sizes ((c + 1) :: cs) →
    ∃ n, ic.linear (c :: cs) = .ok n ∧ ic.linear ((c + 1) :: cs) = .ok (n + 1)

/-- A box without empty axes whose volume is a size is numbered without a fault. -/
theorem numbered_of_prod_lt {sizes : List Nat} (hpos : ∀ size ∈ sizes, 0 < size)
    (hprod : sizes.prod < Word.limit) : Numbered sizes where
  coords n hn := by
    have hwithin := within_position hpos n
    refine ⟨position sizes n, coords_eq_ok hpos n, hwithin, ?_⟩
    rw [index_eq_ok hwithin hprod, number_position hn]
  index cs hcs := by
    refine ⟨number sizes cs, number_lt_prod hcs, index_eq_ok hcs hprod, ?_⟩
    rw [coords_eq_ok hpos, position_number hcs]
  index_eq := index_eq_foldlM sizes
  linear ic hic cs := by rw [IndexColoring.linear, hic]
  linear_inj ic hic cs ds hcs hds h := by
    rw [IndexColoring.linear, IndexColoring.linear, hic, index_eq_ok hcs hprod, index_eq_ok hds hprod] at h
    exact number_inj hcs hds (Except.ok.inj h)
  linear_surj ic hic n hn := by
    have hwithin := within_position hpos n
    refine ⟨position sizes n, hwithin, ?_⟩
    rw [IndexColoring.linear, hic, index_eq_ok hwithin hprod, number_position hn]
  linear_succ ic hic c cs hcs := by
    obtain ⟨size, sizes, hc, hrest, rfl⟩ := List.forall₂_cons_right_iff.mp hcs
    have hbefore : Within (size :: sizes) (c :: cs) := .cons (Nat.lt_of_succ_lt hc) hrest
    refine ⟨number (size :: sizes) (c :: cs), ?_, ?_⟩
    · rw [IndexColoring.linear, hic, index_eq_ok hbefore hprod]
    · rw [IndexColoring.linear, hic, index_eq_ok hcs hprod, number_cons_add]

/-- A box of four axes, one of them of a single cell, whose numbers nearly fill the range of sizes. -/
theorem numbered_of_prod_lt_four_axes :
    let sizes := [4294967296, 3, 1, 1073741824]
    (∀ size ∈ sizes, 0 < size) ∧ sizes.prod < Word.limit ∧ Numbered sizes ∧
      coords sizes 9223372036854775813 = .ok [5, 2, 0, 715827882] ∧
      index sizes [5, 2, 0, 715827882] = .ok 9223372036854775813 := by
  intro sizes
  have hpos : ∀ size ∈ sizes, 0 < size := by decide
  have hprod : sizes.prod < Word.limit := by decide
  exact ⟨hpos, hprod, numbered_of_prod_lt hpos hprod, by decide, by decide⟩

end HaloMesh.Grid
