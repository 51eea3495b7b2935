-- SUMMARY: Splitting processes over axes: what factoring and handing out give, and when a product leaves its range.
import HaloMesh.Mesh.Factor
import HaloMesh.Proofs.Checked
import Mathlib.Data.Nat.Factors

/-!
# Factoring processes

Trial division squares its divisors, so it leaves the range of sizes exactly on primes that are too
large for every divisor of 32 bits. On all other sizes it gives the prime factors. Handing the
factors out multiplies one entry of the color grid by each factor, so the product of the grid never
exceeds the number of processes, and only the comparison of two axes, which multiplies an extent by
an entry of the grid, can leave the range.
-/

namespace HaloMesh

open Checked (FailsWith)

/-! ## Trial division -/

/-- A prime above the square of the largest divisor that can be squared. -/
def LargePrime (n : Nat) : Prop := n.Prime ∧ (2 ^ 32 - 1) * (2 ^ 32 - 1) < n

theorem limit_eq_square : Word.limit = 2 ^ 32 * 2 ^ 32 := rfl

/-- All prime factors of `n` are `p` or larger. -/
def LeastFactor (n p : Nat) : Prop := ∀ q, q.Prime → q ∣ n → p ≤ q

section
variable {n p : Nat}

/-- A number whose prime factors are too large for two of them is prime. -/
theorem LeastFactor.prime (hleast : LeastFactor n p) (hn : 1 < n) (hlt : n < p * p) : n.Prime := by
  by_contra hprime
  have hp : p ≤ n.minFac := hleast _ (Nat.minFac_prime (by omega)) (Nat.minFac_dvd n)
  have hle : p * p ≤ n.minFac * n.minFac := Nat.mul_le_mul hp hp
  have hsquare := Nat.minFac_sq_le_self (Nat.zero_lt_of_lt hn) hprime
  rw [Nat.pow_two] at hsquare
  omega

theorem LeastFactor.succ (hleast : LeastFactor n p) (hdvd : ¬ p ∣ n) : LeastFactor n (p + 1) := by
  intro q hq hdiv
  refine Nat.lt_of_le_of_ne (hleast q hq hdiv) ?_
  rintro rfl
  exact hdvd hdiv

theorem LeastFactor.div (hleast : LeastFactor n p) (hdvd : p ∣ n) : LeastFactor (n / p) p :=
  fun q hq hdiv => hleast q hq (hdiv.trans (Nat.div_dvd_of_dvd hdvd))

theorem LeastFactor.primeFactorsList_eq (hleast : LeastFactor n p) (h : 2 ≤ p) (hn : 1 < n)
    (hdvd : p ∣ n) : n.primeFactorsList = p :: (n / p).primeFactorsList := by
  have hmin : n.minFac = p := Nat.le_antisymm (Nat.minFac_le_of_dvd h hdvd)
    (hleast _ (Nat.minFac_prime (by omega)) (Nat.minFac_dvd n))
  obtain ⟨k, rfl⟩ := Nat.exists_eq_add_of_le' hn
  rw [Nat.primeFactorsList_add_two, hmin]

theorem LargePrime.not_dvd (hlarge : LargePrime n) (h : 2 ≤ p) (hroot : p * p ≤ n) : ¬ p ∣ n := by
  intro hdvd
  rcases (Nat.dvd_prime hlarge.1).mp hdvd with rfl | rfl
  · omega
  · have htwice : p * 2 ≤ p * p := Nat.mul_le_mul_left p h
    omega

/-- What is left after a division is too small for a large prime. -/
theorem not_largePrime_div (hn : n < Word.limit) (h : 2 ≤ p) : ¬ LargePrime (n / p) := by
  intro hlarge
  have hlarge := hlarge.2
  have hhalf : n / p ≤ n / 2 := Nat.div_le_div_left h (by decide)
  rw [limit_eq_square] at hn
  omega

theorem primeFactorsFrom_eq_error (h : 2 ≤ p) (hp : 2 ^ 32 ≤ p) :
    primeFactorsFrom n p h = .error (.overflow .multiply) := by
  have hsquare : 2 ^ 32 * 2 ^ 32 ≤ p * p := Nat.mul_le_mul hp hp
  rw [primeFactorsFrom, Word.mul, limit_eq_square, if_neg (by omega), Checked.error_bind]

/-- Trial division from a divisor of 32 bits on gives the prime factors, and runs out of divisors that
can be squared exactly on a large prime. -/
theorem primeFactorsFrom_cases (h : 2 ≤ p) (hn : n < Word.limit) (hp : p < 2 ^ 32)
    (hleast : LeastFactor n p) :
    (LargePrime n → primeFactorsFrom n p h = .error (.overflow .multiply)) ∧
      (¬ LargePrime n → primeFactorsFrom n p h = .ok n.primeFactorsList) := by
  induction n, p, h using primeFactorsFrom.induct with
  | case1 n p h ihdiv ihnext =>
    have htop : p * p ≤ (2 ^ 32 - 1) * (2 ^ 32 - 1) :=
      Nat.mul_le_mul (Nat.le_sub_one_of_lt hp) (Nat.le_sub_one_of_lt hp)
    have hsquare : Word.mul p p = .ok (p * p) := Word.mul_of_lt (by rw [limit_eq_square]; omega)
    rw [primeFactorsFrom, hsquare, Checked.ok_bind]
    by_cases hroot : p * p ≤ n
    · have hone : 1 < n := Nat.lt_of_lt_of_le (by omega : 1 < 2 * 2) (.trans (Nat.mul_le_mul h h) hroot)
      rw [dif_pos hroot]
      by_cases hdvd : p ∣ n
      · -- The divisor is the least prime factor.
        rw [if_pos (Nat.mod_eq_zero_of_dvd hdvd)]
        obtain ⟨-, hrest⟩ := ihdiv hroot (Nat.lt_of_le_of_lt (Nat.div_le_self n p) hn) hp
          (hleast.div hdvd)
        rw [hrest (not_largePrime_div hn h), hleast.primeFactorsList_eq h hone hdvd]
        exact ⟨fun hlarge => absurd hdvd (hlarge.not_dvd h hroot), fun _ => rfl⟩
      · rw [if_neg fun hmod => hdvd (Nat.dvd_of_mod_eq_zero hmod)]
        have hnext := hleast.succ hdvd
        by_cases hlast : p + 1 = 2 ^ 32
        · -- The next divisor cannot be squared, and what is left is prime.
          have hlarge : LargePrime n := by
            refine ⟨hnext.prime hone (by rwa [hlast]), ?_⟩
            obtain rfl : p = 2 ^ 32 - 1 := by omega
            exact Nat.lt_of_le_of_ne hroot fun heq => hdvd (heq ▸ Nat.dvd_mul_right _ _)
          exact ⟨fun _ => primeFactorsFrom_eq_error _ (Nat.le_of_eq hlast.symm),
            fun hnot => absurd hlarge hnot⟩
        · exact ihnext hroot hn (by omega) hnext
    · rw [dif_neg hroot]
      refine ⟨fun hlarge => absurd hlarge.2 (by omega), fun _ => ?_⟩
      split
      · rename_i hone
        rw [Nat.primeFactorsList_prime (hleast.prime hone (by omega))]
        rfl
      · have hsmall : n = 0 ∨ n = 1 := by omega
        rcases hsmall with rfl | rfl <;> simp

end

theorem primeFactors_cases {n : Nat} (hn : n < Word.limit) :
    (LargePrime n → primeFactors n = .error (.overflow .multiply)) ∧
      (¬ LargePrime n → primeFactors n = .ok n.primeFactorsList) :=
  primeFactorsFrom_cases _ hn (by decide) fun _ hq _ => hq.two_le

/-! ## Handing out factors -/

/-- The comparison of two axes is out of range, and so is the product of an extent and `n`. -/
def Crowded (extents : List Nat) (n : Nat) (cause : Fault) : Prop :=
  cause = .overflow .multiply ∧ 1 < extents.length ∧ ∃ extent ∈ extents, Word.limit ≤ extent * n

section
variable {extents colors : List Nat} {n : Nat}

theorem crowded_mul {extent k : Nat} (hlength : 1 < extents.length) (hextent : extent ∈ extents)
    (hk : k ≤ n) : FailsWith (Crowded extents n) (Word.mul extent k) :=
  (Word.mul_failsWith extent k).mono fun _ hcause =>
    ⟨hcause.1, hlength, extent, hextent, Nat.le_trans hcause.2 (Nat.mul_le_mul_left extent hk)⟩

theorem denser_failsWith (hlength : colors.length = extents.length) (hcolors : ∀ k ∈ colors, k ≤ n)
    {a b : Nat} (ha : a < b) (hb : b < extents.length) :
    FailsWith (Crowded extents n) (denser extents colors b a) := by
  have haxes : 1 < extents.length := by omega
  have hfetch : ∀ i < extents.length, ∃ extent ∈ extents, ∃ k ∈ colors,
      fetch extents i = .ok extent ∧ fetch colors i = .ok k := fun i hi =>
    ⟨_, List.getElem_mem hi, _, List.getElem_mem (hlength ▸ hi),
      fetch_eq_ok_iff.mpr (List.getElem?_eq_getElem _),
      fetch_eq_ok_iff.mpr (List.getElem?_eq_getElem _)⟩
  obtain ⟨x, hx, k, hk, hfetchX, hfetchK⟩ := hfetch a (by omega)
  obtain ⟨y, hy, l, hl, hfetchY, hfetchL⟩ := hfetch b hb
  simp only [denser, hfetchX, hfetchK, hfetchY, hfetchL, Checked.ok_bind]
  exact (crowded_mul haxes hy (hcolors k hk)).bind fun _ =>
    (crowded_mul haxes hx (hcolors l hl)).bind fun _ => .ok _ _

theorem densestBelow_failsWith (hlength : colors.length = extents.length)
    (hcolors : ∀ k ∈ colors, k ≤ n) {best a : Nat} (ha : a ≤ best) (hbest : best < extents.length) :
    FailsWith (Crowded extents n) (densestBelow extents colors best a) := by
  induction a generalizing best with
  | zero => exact .ok _ best
  | succ a ih =>
    refine (denser_failsWith hlength hcolors ha hbest).bind fun kept => ?_
    split
    · exact ih (Nat.le_of_succ_le ha) hbest
    · exact ih (Nat.le_refl a) (by omega)

theorem densestBelow_lt {best a axis : Nat} (ha : a ≤ best) (hbest : best < extents.length)
    (h : densestBelow extents colors best a = .ok axis) : axis < extents.length := by
  induction a generalizing best with
  | zero =>
    cases h
    exact hbest
  | succ a ih =>
    obtain ⟨kept, -, h⟩ := Checked.bind_eq_ok_iff.mp h
    split at h
    · exact ih (Nat.le_of_succ_le ha) hbest h
    · exact ih (Nat.le_refl a) (by omega) h

theorem prod_set_mul (factor : Nat) {xs : List Nat} {i x : Nat} (h : xs[i]? = some x) :
    (xs.set i (x * factor)).prod = xs.prod * factor := by
  induction xs generalizing i with
  | nil => cases h
  | cons y xs ih =>
    cases i with
    | zero =>
      cases h
      rw [List.set_cons_zero, List.prod_cons, List.prod_cons, Nat.mul_right_comm]
    | succ i => rw [List.set_cons_succ, List.prod_cons, List.prod_cons, ih h, Nat.mul_assoc]

/-- Giving a factor away multiplies the number of colors by it. -/
theorem prod_of_giveFactor {factor : Nat} {given : List Nat}
    (h : giveFactor extents colors factor = .ok given) :
    given.length = colors.length ∧ given.prod = colors.prod * factor := by
  simp only [giveFactor, Checked.bind_eq_ok_iff, Checked.pure_eq_ok, Except.ok.injEq] at h
  obtain ⟨axis, -, k, hfetch, product, hmul, rfl⟩ := h
  obtain ⟨-, rfl⟩ := Word.mul_eq_ok_iff.mp hmul
  exact ⟨List.length_set, prod_set_mul factor (fetch_eq_ok_iff.mp hfetch)⟩

theorem length_of_giveFactors {factors given : List Nat}
    (h : factors.foldlM (giveFactor extents) colors = .ok given) : given.length = colors.length := by
  induction factors generalizing colors with
  | nil =>
    cases h
    rfl
  | cons factor factors ih =>
    rw [List.foldlM_cons, Checked.bind_eq_ok_iff] at h
    obtain ⟨next, hnext, hrest⟩ := h
    exact (ih hrest).trans (prod_of_giveFactor hnext).1

/-- The color grid has one entry per axis. -/
theorem length_of_factorColors {processes : Nat} {grid : List Nat}
    (h : factorColors processes extents = .ok grid) : grid.length = extents.length := by
  unfold factorColors at h
  split at h
  · cases h
    exact List.length_replicate
  · obtain ⟨factors, -, hgiven⟩ := Checked.bind_eq_ok_iff.mp h
    exact (length_of_giveFactors hgiven).trans List.length_replicate

theorem le_prod_of_mem {xs : List Nat} (hpos : 0 < xs.prod) {x : Nat} (hx : x ∈ xs) : x ≤ xs.prod :=
  Nat.le_of_dvd hpos (List.dvd_prod hx)

theorem giveFactor_failsWith (hlength : colors.length = extents.length) (haxes : extents ≠ [])
    (hpos : 0 < colors.prod) {factor : Nat} (hle : colors.prod * factor ≤ n) (hfactor : 0 < factor)
    (hn : n < Word.limit) : FailsWith (Crowded extents n) (giveFactor extents colors factor) := by
  have hlast : extents.length - 1 < extents.length :=
    Nat.sub_one_lt (Nat.ne_of_gt (List.length_pos_iff.mpr haxes))
  have hcolors : ∀ k ∈ colors, k * factor ≤ n := fun k hk =>
    Nat.le_trans (Nat.mul_le_mul_right factor (le_prod_of_mem hpos hk)) hle
  refine FailsWith.andThen ?_ fun axis haxis => ?_
  · exact densestBelow_failsWith hlength (fun k hk => .trans (Nat.le_mul_of_pos_right k hfactor)
      (hcolors k hk)) (Nat.le_refl _) hlast
  · have hlt : axis < colors.length := hlength ▸ densestBelow_lt (Nat.le_refl _) hlast haxis
    have hmul := hcolors _ (List.getElem_mem hlt)
    rw [fetch_eq_ok_iff.mpr (List.getElem?_eq_getElem hlt), Checked.ok_bind,
      Word.mul_of_lt (Nat.lt_of_le_of_lt hmul hn)]
    exact .ok _ _

/-- The number of colors times the factors that are still to be given away stays the same. -/
theorem giveFactors_failsWith (haxes : extents ≠ []) {factors : List Nat}
    (hfactors : ∀ factor ∈ factors, 0 < factor) (hlength : colors.length = extents.length)
    (hpos : 0 < colors.prod) (hle : colors.prod * factors.prod ≤ n) (hn : n < Word.limit) :
    FailsWith (Crowded extents n) (factors.foldlM (giveFactor extents) colors) := by
  induction factors generalizing colors with
  | nil => exact .ok _ colors
  | cons factor factors ih =>
    have hfactor : 0 < factor := hfactors factor (by simp)
    have hrest : ∀ factor ∈ factors, 0 < factor := fun f hf => hfactors f (by simp [hf])
    rw [List.prod_cons, ← Nat.mul_assoc] at hle
    have hstep : colors.prod * factor ≤ n :=
      Nat.le_trans (Nat.le_mul_of_pos_right _ (List.prod_pos_iff_forall_pos_nat.mpr hrest)) hle
    rw [List.foldlM_cons]
    refine (giveFactor_failsWith hlength haxes hpos hstep hfactor hn).andThen fun given hgiven => ?_
    obtain ⟨hsame, hprod⟩ := prod_of_giveFactor hgiven
    exact ih hrest (hsame.trans hlength) (hprod ▸ Nat.mul_pos hpos hfactor) (hprod ▸ hle)

end

/-- No product leaves its range when processes are split over axes of these extents. -/
structure Splittable (processes : Nat) (extents : List Nat) : Prop where
  factors : extents ≠ [] → ¬ LargePrime processes
  products : 1 < extents.length → ∀ extent ∈ extents, extent * processes < Word.limit

/-- Splitting processes over axes fails only where a product leaves its range. -/
theorem factorColors_failsWith {processes : Nat} (h : processes < Word.limit) (extents : List Nat) :
    FailsWith (fun cause => cause = .overflow .multiply ∧ ¬ Splittable processes extents)
      (factorColors processes extents) := by
  unfold factorColors
  split
  · exact .ok _ _
  · rename_i haxes
    rw [List.isEmpty_iff] at haxes
    by_cases hlarge : LargePrime processes
    · rw [(primeFactors_cases h).1 hlarge]
      exact .error ⟨rfl, fun hsplit => hsplit.factors haxes hlarge⟩
    · rw [(primeFactors_cases h).2 hlarge, Checked.ok_bind]
      rcases Nat.eq_zero_or_pos processes with rfl | hpos
      · rw [Nat.primeFactorsList_zero]
        exact .ok _ _
      · refine (giveFactors_failsWith haxes (fun p hp => ?_) (by simp) (by simp) ?_ h).mono ?_
        · exact (Nat.prime_of_mem_primeFactorsList (List.mem_reverse.mp hp)).pos
        · simp [Nat.prod_primeFactorsList hpos.ne']
        · rintro cause ⟨hcause, hlength, extent, hextent, hlimit⟩
          exact ⟨hcause, fun hsplit =>
            Nat.not_lt_of_le hlimit (hsplit.products hlength extent hextent)⟩

end HaloMesh
