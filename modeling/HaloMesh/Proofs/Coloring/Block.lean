-- SUMMARY: The blocks of an axis follow one another without gaps, and their sizes are as even as they can be.
import HaloMesh.Coloring.Block
import HaloMesh.Proofs.Checked

/-!
# Splitting an axis into blocks

`Block.of` computes size and offset of a block from closed forms. Both are stated here without range
checks, as `sizeAt` and `offsetAt`. Moving to the next position adds the size of the block to the
offset, which makes every offset the sum of the sizes below it and the last block end at the extent.
-/

namespace HaloMesh.Block

/-- The size of the block at position `c`. -/
def sizeAt (extent colors c : Nat) : Nat :=
  extent / colors + if c < extent % colors then 1 else 0

/-- Where the block at position `c` starts. -/
def offsetAt (extent colors c : Nat) : Nat := c * (extent / colors) + min c (extent % colors)

variable {extent colors : Nat}

@[simp] theorem offsetAt_zero : offsetAt extent colors 0 = 0 := by
  simp [offsetAt]

theorem offsetAt_succ (c : Nat) :
    offsetAt extent colors (c + 1) = offsetAt extent colors c + sizeAt extent colors c := by
  rw [offsetAt, offsetAt, sizeAt, Nat.succ_mul]
  split <;> omega

theorem offsetAt_colors (hcolors : 0 < colors) : offsetAt extent colors colors = extent := by
  have hmod : extent % colors < colors := Nat.mod_lt _ hcolors
  rw [offsetAt, Nat.min_eq_right (by omega)]
  exact Nat.div_add_mod extent colors

theorem offsetAt_mono {c d : Nat} (h : c ≤ d) :
    offsetAt extent colors c ≤ offsetAt extent colors d := by
  induction h with
  | refl => exact Nat.le_refl _
  | step _ ih =>
    rw [offsetAt_succ]
    exact Nat.le_add_right_of_le ih

theorem offsetAt_add_sizeAt_le {c : Nat} (hc : c < colors) :
    offsetAt extent colors c + sizeAt extent colors c ≤ extent := by
  rw [← offsetAt_succ]
  exact Nat.le_trans (offsetAt_mono hc) (Nat.le_of_eq (offsetAt_colors (by omega)))

theorem div_le_sizeAt (c : Nat) : extent / colors ≤ sizeAt extent colors c :=
  Nat.le_add_right _ _

/-- Every position gets an index if there are as many indices as positions. -/
theorem sizeAt_pos (hcolors : 0 < colors) (h : colors ≤ extent) (c : Nat) :
    0 < sizeAt extent colors c :=
  Nat.lt_of_lt_of_le (Nat.div_pos h hcolors) (div_le_sizeAt c)

/-- Blocks get no larger from one position to a later one. -/
theorem sizeAt_antitone {c d : Nat} (h : c ≤ d) :
    sizeAt extent colors d ≤ sizeAt extent colors c := by
  unfold sizeAt
  split <;> split <;> omega

theorem sizeAt_le_succ (c d : Nat) : sizeAt extent colors c ≤ sizeAt extent colors d + 1 := by
  unfold sizeAt
  split <;> split <;> omega

/-- An offset is the sum of the sizes of the blocks below it. -/
theorem offsetAt_eq_sum (c : Nat) :
    offsetAt extent colors c = ((List.range c).map (sizeAt extent colors)).sum := by
  induction c with
  | zero => simp
  | succ c ih => rw [offsetAt_succ, ih, List.range_succ, List.map_append, List.sum_append]; simp

theorem offsetAt_pos (hcolors : 0 < colors) (h : colors ≤ extent) {c : Nat} (hc : 0 < c) :
    0 < offsetAt extent colors c := by
  have hfirst : offsetAt extent colors (0 + 1) ≤ offsetAt extent colors c := offsetAt_mono hc
  rw [offsetAt_succ, offsetAt_zero] at hfirst
  have := sizeAt_pos hcolors h 0
  omega

theorem stop_lt_of_not_last (hcolors : 0 < colors) (h : colors ≤ extent) {c : Nat}
    (hc : c + 1 < colors) : offsetAt extent colors c + sizeAt extent colors c < extent := by
  have hnext : offsetAt extent colors (c + 1) + sizeAt extent colors (c + 1) ≤ extent :=
    offsetAt_add_sizeAt_le hc
  rw [offsetAt_succ] at hnext
  have := sizeAt_pos hcolors h (c + 1)
  omega

/-- One more index on the axis moves no start of a block by more than one. -/
theorem offsetAt_succ_extent (hcolors : 0 < colors) {c : Nat} (hc : c ≤ colors) :
    offsetAt extent colors c ≤ offsetAt (extent + 1) colors c ∧
      offsetAt (extent + 1) colors c ≤ offsetAt extent colors c + 1 := by
  have hmod : extent % colors < colors := Nat.mod_lt _ hcolors
  have hsplit : extent % colors + colors * (extent / colors) = extent := Nat.mod_add_div _ _
  rcases Nat.lt_or_ge (extent % colors + 1) colors with hlt | hge
  · -- The index goes to the first block that has none of the rest yet.
    obtain ⟨hdiv, hrest⟩ : (extent + 1) / colors = extent / colors ∧
        (extent + 1) % colors = extent % colors + 1 :=
      (Nat.div_mod_unique hcolors).mpr ⟨by omega, hlt⟩
    rw [offsetAt, offsetAt, hdiv, hrest]
    omega
  · -- The blocks become even: all but the last one had one of the rest already.
    obtain ⟨hdiv, hrest⟩ : (extent + 1) / colors = extent / colors + 1 ∧ (extent + 1) % colors = 0 :=
      (Nat.div_mod_unique hcolors).mpr ⟨by rw [Nat.mul_succ]; omega, hcolors⟩
    rw [offsetAt, offsetAt, hdiv, hrest, Nat.mul_succ]
    omega

/-- Every index of an axis lies in exactly one block. -/
theorem existsUnique_block (hcolors : 0 < colors) {i : Nat} (hi : i < extent) :
    ∃! c, c < colors ∧ offsetAt extent colors c ≤ i ∧
      i < offsetAt extent colors c + sizeAt extent colors c := by
  -- The block is the last one that starts at or before the index.
  have hexists : ∀ n ≤ colors, i < offsetAt extent colors n →
      ∃ c < n, offsetAt extent colors c ≤ i ∧
        i < offsetAt extent colors c + sizeAt extent colors c := by
    intro n
    induction n with
    | zero =>
      intro _ h
      rw [offsetAt_zero] at h
      omega
    | succ n ih =>
      intro hn h
      by_cases hstart : offsetAt extent colors n ≤ i
      · rw [offsetAt_succ] at h
        exact ⟨n, Nat.lt_succ_self n, hstart, h⟩
      · obtain ⟨c, hc, hcover⟩ := ih (by omega) (by omega)
        exact ⟨c, Nat.lt_succ_of_lt hc, hcover⟩
  obtain ⟨c, hc, hlow, hhigh⟩ := hexists colors (Nat.le_refl _) ((offsetAt_colors hcolors).symm ▸ hi)
  refine ⟨c, ⟨hc, hlow, hhigh⟩, ?_⟩
  rintro d ⟨_, hdlow, hdhigh⟩
  rw [← offsetAt_succ] at hhigh hdhigh
  rcases Nat.lt_trichotomy c d with hlt | heq | hlt
  · have : offsetAt extent colors (c + 1) ≤ offsetAt extent colors d := offsetAt_mono hlt
    omega
  · exact heq.symm
  · have : offsetAt extent colors (d + 1) ≤ offsetAt extent colors c := offsetAt_mono hlt
    omega

/-! ## Checked arithmetic -/

theorem of_eq_ok_iff {c : Nat} {block : Block} (hcolors : 0 < colors) :
    Block.of extent colors c = .ok block ↔
      (offsetAt extent colors c < Word.limit ∧ sizeAt extent colors c < Word.limit) ∧
        block = ⟨offsetAt extent colors c, sizeAt extent colors c⟩ := by
  simp only [Block.of, Word.div_of_pos hcolors, Word.mod_of_pos hcolors, Checked.ok_bind,
    Checked.bind_eq_ok_iff, Word.add_eq_ok_iff, Word.mul_eq_ok_iff, Checked.pure_eq_ok, Except.ok.injEq]
  constructor
  · rintro ⟨_, ⟨hsize, rfl⟩, _, ⟨-, rfl⟩, _, ⟨hoffset, rfl⟩, rfl⟩
    exact ⟨⟨hoffset, hsize⟩, rfl⟩
  · rintro ⟨⟨hoffset, hsize⟩, rfl⟩
    have hmul : c * (extent / colors) < Word.limit := Nat.lt_of_le_of_lt (Nat.le_add_right _ _) hoffset
    exact ⟨_, ⟨hsize, rfl⟩, _, ⟨hmul, rfl⟩, _, ⟨hoffset, rfl⟩, rfl⟩

theorem of_eq_ok {c : Nat} (hc : c < colors) (hextent : extent < Word.limit) :
    Block.of extent colors c = .ok ⟨offsetAt extent colors c, sizeAt extent colors c⟩ := by
  have hstop : offsetAt extent colors c + sizeAt extent colors c ≤ extent :=
    offsetAt_add_sizeAt_le hc
  refine (of_eq_ok_iff (Nat.zero_lt_of_lt hc)).mpr ⟨⟨?_, ?_⟩, rfl⟩
  · exact Nat.lt_of_le_of_lt (Nat.le_of_add_right_le hstop) hextent
  · exact Nat.lt_of_le_of_lt (Nat.le_of_add_left_le hstop) hextent

end HaloMesh.Block
