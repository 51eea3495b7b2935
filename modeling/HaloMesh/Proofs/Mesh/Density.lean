-- SUMMARY: Prime factors go, largest first, to the first axis with the most indices per color.
import HaloMesh.Proofs.Mesh.Factor
import Mathlib.Algebra.Order.Field.Rat

/-!
# Dense axes

Two axes are compared by products, from the last axis to the first, and a tie goes to the lower one. So
the axis that is found is the first of those on which the exact number of indices per color is largest.
This determines the axis, and thereby the color grid that the prime factors of the number of processes
are handed out to.
-/

namespace HaloMesh

open Checked (Gives)

/-! ## Prime factors -/

/-- Whatever trial division returns are the prime factors, also where a product could have left its
range. -/
theorem primeFactorsFrom_gives {n p : Nat} (h : 2 ≤ p) (hleast : LeastFactor n p) :
    Gives (primeFactorsFrom n p h) n.primeFactorsList := by
  induction n, p, h using primeFactorsFrom.induct with
  | case1 n p h ihdiv ihnext =>
    rw [primeFactorsFrom]
    refine (Word.gives_mul p p).bind ?_
    by_cases hroot : p * p ≤ n
    · have hone : 1 < n := Nat.lt_of_lt_of_le (by omega : 1 < 2 * 2) (.trans (Nat.mul_le_mul h h) hroot)
      rw [dif_pos hroot]
      by_cases hdvd : p ∣ n
      · rw [if_pos (Nat.mod_eq_zero_of_dvd hdvd), hleast.primeFactorsList_eq h hone hdvd]
        exact (ihdiv hroot (hleast.div hdvd)).bind (.ok _)
      · rw [if_neg fun hmod => hdvd (Nat.dvd_of_mod_eq_zero hmod)]
        exact ihnext hroot (hleast.succ hdvd)
    · rw [dif_neg hroot]
      split
      · rename_i hone
        rw [Nat.primeFactorsList_prime (hleast.prime hone (by omega))]
        exact .ok _
      · have hsmall : n = 0 ∨ n = 1 := by omega
        rcases hsmall with rfl | rfl <;> exact .of_eq (by simp)

theorem primeFactors_gives (n : Nat) : Gives (primeFactors n) n.primeFactorsList :=
  primeFactorsFrom_gives _ fun _ hq _ => hq.two_le

/-! ## The first of the densest axes -/

/-- The indices per color of an axis, as an exact quotient. -/
def density (extents colors : List Nat) (a : Nat) : ℚ := extents.getD a 0 / colors.getD a 0

/-- The axis has the most indices per color, and all axes before it have fewer. -/
structure Densest (extents colors : List Nat) (a : Nat) : Prop where
  lt_length : a < extents.length
  density_le : ∀ b < extents.length, density extents colors b ≤ density extents colors a
  density_lt : ∀ b < a, density extents colors b < density extents colors a

section
variable {extents colors : List Nat} {a b best axis : Nat}

theorem Densest.unique (ha : Densest extents colors a) (hb : Densest extents colors b) : a = b := by
  rcases Nat.lt_trichotomy a b with hlt | heq | hgt
  · exact absurd (hb.density_lt a hlt) (not_lt.mpr (ha.density_le b hb.lt_length))
  · exact heq
  · exact absurd (ha.density_lt b hgt) (not_lt.mpr (hb.density_le a ha.lt_length))

theorem getD_eq_of_fetch {xs : List Nat} {i x : Nat} (h : fetch xs i = .ok x) : xs.getD i 0 = x := by
  rw [List.getD_eq_getElem?_getD, fetch_eq_ok_iff.mp h]
  rfl

/-- Comparing products is comparing quotients. -/
theorem density_lt_of_denser (hpos : ∀ k ∈ colors, 0 < k) {denserThan : Bool}
    (h : denser extents colors a b = .ok denserThan) :
    denserThan = true ↔ density extents colors b < density extents colors a := by
  simp only [denser, Checked.bind_eq_ok_iff, Checked.pure_eq_ok, Except.ok.injEq] at h
  obtain ⟨x, hx, k, hk, left, hleft, y, hy, l, hl, right, hright, rfl⟩ := h
  obtain ⟨-, rfl⟩ := Word.mul_eq_ok_iff.mp hleft
  obtain ⟨-, rfl⟩ := Word.mul_eq_ok_iff.mp hright
  have hkpos : (0 : ℚ) < k := Nat.cast_pos.mpr (hpos k (List.mem_of_getElem? (fetch_eq_ok_iff.mp hk)))
  have hlpos : (0 : ℚ) < l := Nat.cast_pos.mpr (hpos l (List.mem_of_getElem? (fetch_eq_ok_iff.mp hl)))
  rw [density, density, getD_eq_of_fetch hx, getD_eq_of_fetch hy, getD_eq_of_fetch hk,
    getD_eq_of_fetch hl, div_lt_div_iff₀ hkpos hlpos, decide_eq_true_iff]
  exact_mod_cast Iff.rfl

/-- The walk keeps the densest of the axes that it has seen, and the lowest of several. -/
theorem densestBelow_spec (hpos : ∀ k ∈ colors, 0 < k)
    (h : densestBelow extents colors best a = .ok axis) :
    (axis = best ∨ axis < a) ∧ density extents colors best ≤ density extents colors axis ∧
      ∀ b < a, density extents colors b ≤ density extents colors axis ∧
        (b < axis → density extents colors b < density extents colors axis) := by
  induction a generalizing best with
  | zero =>
    cases h
    exact ⟨.inl rfl, le_refl _, fun b hb => absurd hb (Nat.not_lt_zero b)⟩
  | succ a ih =>
    obtain ⟨kept, hkept, h⟩ := Checked.bind_eq_ok_iff.mp h
    have hiff := density_lt_of_denser hpos hkept
    cases kept with
    | true =>
      have hlt := hiff.mp rfl
      obtain ⟨hfrom, hle, hbelow⟩ := ih h
      refine ⟨hfrom.imp_right (Nat.lt_succ_of_lt ·), hle, fun b hb => ?_⟩
      rcases Nat.lt_succ_iff_lt_or_eq.mp hb with hb | rfl
      · exact hbelow b hb
      · have hlt := lt_of_lt_of_le hlt hle
        exact ⟨le_of_lt hlt, fun _ => hlt⟩
    | false =>
      have hge : density extents colors best ≤ density extents colors a :=
        not_lt.mp fun hlt => Bool.false_ne_true (hiff.mpr hlt)
      obtain ⟨hfrom, hle, hbelow⟩ := ih h
      refine ⟨.inr (by omega), le_trans hge hle, fun b hb => ?_⟩
      rcases Nat.lt_succ_iff_lt_or_eq.mp hb with hb | rfl
      · exact hbelow b hb
      · exact ⟨hle, fun hlt => by omega⟩

theorem densest_of_densestAxis (haxes : extents ≠ []) (hpos : ∀ k ∈ colors, 0 < k)
    (h : densestAxis extents colors = .ok axis) : Densest extents colors axis := by
  have hlength := List.length_pos_iff.mpr haxes
  obtain ⟨hfrom, hlast, hbelow⟩ := densestBelow_spec hpos h
  refine ⟨by omega, fun b hb => ?_, fun b hb => (hbelow b (by omega)).2 hb⟩
  by_cases heq : b = extents.length - 1
  · rw [heq]
    exact hlast
  · exact (hbelow b (by omega)).1

end

/-! ## Handing out factors -/

/-- The factors are handed out one after the other, each to the first of the axes that have the most
indices per color by then. -/
inductive HandsOut (extents : List Nat) : List Nat → List Nat → List Nat → Prop
  | nil (colors : List Nat) : HandsOut extents [] colors colors
  | cons {factor a : Nat} {factors colors grid : List Nat} : Densest extents colors a →
      HandsOut extents factors (colors.set a (colors.getD a 0 * factor)) grid →
      HandsOut extents (factor :: factors) colors grid

section
variable {extents factors colors grid grid' : List Nat}

theorem HandsOut.unique (h : HandsOut extents factors colors grid)
    (h' : HandsOut extents factors colors grid') : grid' = grid := by
  induction h with
  | nil =>
    cases h'
    rfl
  | cons hdensest _ ih =>
    cases h' with
    | cons hdensest' hrest' =>
      cases hdensest.unique hdensest'
      exact ih hrest'

theorem handsOut_of_giveFactors (haxes : extents ≠ []) (hpos : ∀ k ∈ colors, 0 < k)
    (hfactors : ∀ factor ∈ factors, 0 < factor)
    (h : factors.foldlM (giveFactor extents) colors = .ok grid) :
    HandsOut extents factors colors grid := by
  induction factors generalizing colors with
  | nil =>
    cases h
    exact .nil _
  | cons factor factors ih =>
    rw [List.foldlM_cons, Checked.bind_eq_ok_iff] at h
    obtain ⟨given, hgiven, h⟩ := h
    simp only [giveFactor, Checked.bind_eq_ok_iff, Checked.pure_eq_ok, Except.ok.injEq] at hgiven
    obtain ⟨a, ha, k, hk, product, hproduct, rfl⟩ := hgiven
    obtain ⟨-, rfl⟩ := Word.mul_eq_ok_iff.mp hproduct
    refine .cons (densest_of_densestAxis haxes hpos ha) ?_
    rw [getD_eq_of_fetch hk]
    refine ih (fun l hl => ?_) (fun f hf => hfactors f (by simp [hf])) h
    rcases List.mem_or_eq_of_mem_set hl with hl | rfl
    · exact hpos l hl
    · exact Nat.mul_pos (hpos k (List.mem_of_getElem? (fetch_eq_ok_iff.mp hk))) (hfactors factor (by simp))

theorem prod_of_giveFactors (h : factors.foldlM (giveFactor extents) colors = .ok grid) :
    grid.prod = colors.prod * factors.prod := by
  induction factors generalizing colors with
  | nil =>
    cases h
    rw [List.prod_nil, Nat.mul_one]
  | cons factor factors ih =>
    rw [List.foldlM_cons, Checked.bind_eq_ok_iff] at h
    obtain ⟨given, hgiven, h⟩ := h
    rw [ih h, (prod_of_giveFactor hgiven).2, List.prod_cons, Nat.mul_assoc]

end

/-! ## Splitting processes -/

section
variable {processes : Nat} {extents grid : List Nat}

/-- A grid that is found comes from handing out the prime factors, largest first. -/
theorem giveFactors_of_factorColors (haxes : extents ≠ [])
    (h : factorColors processes extents = .ok grid) :
    processes.primeFactorsList.reverse.foldlM (giveFactor extents) (List.replicate extents.length 1) =
      .ok grid := by
  rw [factorColors, if_neg (by rwa [List.isEmpty_iff]), Checked.bind_eq_ok_iff] at h
  obtain ⟨factors, hfactors, h⟩ := h
  rw [primeFactors_gives processes factors hfactors] at h
  exact h

theorem prod_of_factorColors (hprocesses : 0 < processes) (haxes : extents ≠ [])
    (h : factorColors processes extents = .ok grid) : grid.prod = processes := by
  rw [prod_of_giveFactors (giveFactors_of_factorColors haxes h), List.prod_replicate, one_pow, one_mul,
    List.prod_reverse, Nat.prod_primeFactorsList hprocesses.ne']

theorem handsOut_of_factorColors (haxes : extents ≠ []) (h : factorColors processes extents = .ok grid) :
    HandsOut extents processes.primeFactorsList.reverse (List.replicate extents.length 1) grid := by
  refine handsOut_of_giveFactors haxes (fun k hk => ?_) (fun p hp => ?_)
    (giveFactors_of_factorColors haxes h)
  · rw [List.eq_of_mem_replicate hk]
    exact Nat.one_pos
  · exact Nat.pos_of_mem_primeFactorsList (List.mem_reverse.mp hp)

end

end HaloMesh
