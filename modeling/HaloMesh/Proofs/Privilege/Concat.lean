-- SUMMARY: Joining two packs gives the pack of all their modes, unless the first one has no sentinel to keep.
import HaloMesh.Proofs.Privilege.Pack

/-!
# Joining packs

A pack is zero, which stands for no modes, or it has its sentinel where its count says. Joining drops
the sentinel of the second pack and keeps that of the first, so the result is the pack of all modes
in order. A first pack of zero has no sentinel to keep: the modes of the second then stand alone, and
can no longer be told from zeros above them.
-/

namespace HaloMesh

namespace Pack

/-- The number is zero, or its highest bit is the sentinel of as many modes as are counted. -/
def WellFormed (p : Pack) : Prop := p.raw = 0 ∨ p.raw.toNat.log2 = 2 * p.count

instance (p : Pack) : Decidable p.WellFormed := inferInstanceAs (Decidable (_ ∨ _))

/-- Every number whose highest bit can be a sentinel is the word of some modes. -/
theorem exists_word (n : Nat) {r : Nat} (hlow : 4 ^ n ≤ r) (hhigh : r < 2 * 4 ^ n) :
    ∃ ms : List Privilege, ms.length = n ∧ word ms = r := by
  induction n generalizing r with
  | zero =>
    have hone : r = 1 := by omega
    exact ⟨[], rfl, hone.symm⟩
  | succ n ih =>
    -- The last mode is the lowest digit, and the rest has its sentinel one digit lower.
    obtain ⟨ms, hlength, hword⟩ := @ih (r / 4) (by omega) (by omega)
    refine ⟨ms ++ [.ofCode r], by simp [hlength], ?_⟩
    rw [word_concat, hword, Privilege.code_ofCode]
    exact Nat.div_add_mod r 4

variable {p q r : Pack}

/-- A pack with its sentinel in place stores its modes. -/
theorem stores_modes (h : p.WellFormed) (hne : p.raw ≠ 0) : p.Stores p.modes := by
  have hraw : p.raw.toNat ≠ 0 := fun hzero => hne (UInt32.toNat_inj.mp hzero)
  have hlog := (Nat.log2_eq_iff hraw).mp (h.resolve_left hne)
  have hpow : 2 ^ (2 * p.count) = 4 ^ p.count := Nat.pow_mul 2 2 p.count
  rw [Nat.pow_succ, hpow] at hlog
  obtain ⟨ms, -, hword⟩ := exists_word p.count hlog.1 (by omega)
  have hstores : p.Stores ms := hword.symm
  rwa [hstores.modes_eq]

theorem Stores.wellFormed {ms : List Privilege} (h : p.Stores ms) : p.WellFormed := by
  refine .inr ?_
  rw [h, log2_word, h.count_eq]

theorem length_modes (p : Pack) : p.modes.length = p.count := by
  rw [modes, List.length_map, List.length_range]

/-- A number of fewer digits counts fewer modes. -/
theorem count_lt {n : Nat} (hn : n ≠ 0) (h : p.raw.toNat < 4 ^ n) : p.count < n := by
  by_cases hraw : p.raw.toNat = 0
  · rw [count, hraw]
    exact Nat.pos_of_ne_zero hn
  · have hpow : 2 ^ (2 * n) = 4 ^ n := Nat.pow_mul 2 2 n
    have hlog : p.raw.toNat.log2 < 2 * n := (Nat.log2_lt hraw).mpr (hpow ▸ h)
    unfold count
    omega

theorem modes_of_count_eq_zero (h : p.count = 0) : p.modes = [] := by
  rw [modes, h]
  rfl

theorem count_of_raw_eq_zero (h : p.raw = 0) : p.count = 0 := by
  rw [count, h]
  rfl

/-- Below the sentinel are the digits of the modes. -/
theorem raw_mod_eq (h : q.WellFormed) : q.raw.toNat % 4 ^ q.count = value q.modes := by
  by_cases hzero : q.raw = 0
  · rw [modes_of_count_eq_zero (count_of_raw_eq_zero hzero), hzero]
    exact Nat.zero_mod _
  · rw [stores_modes h hzero, ← q.length_modes, word_mod]

/-! ## Joined packs -/

/-- `r` is a pack of the modes of `p` and then those of `q`. -/
structure Joins (p q r : Pack) : Prop where
  wellFormed : r.WellFormed
  modes_eq : r.modes = p.modes ++ q.modes
  count_eq : r.count = p.count + q.count
  code_merge : r.merge.code = p.merge.code ||| q.merge.code

theorem joins_of_modes (h : r.WellFormed) (hmodes : r.modes = p.modes ++ q.modes) : p.Joins q r where
  wellFormed := h
  modes_eq := hmodes
  count_eq := by rw [← length_modes, hmodes, List.length_append, length_modes, length_modes]
  code_merge := by
    simp only [Pack.code_merge, Privilege.bits_or, allowsRead_eq, allowsWrite_eq, hmodes, List.any_append]

/-- A first pack without a sentinel leaves the modes of the second without one, too. -/
theorem joins_iff_of_raw_eq_zero (hp : p.raw = 0) (hr : r.raw.toNat = value q.modes) :
    p.Joins q r ↔ q.count = 0 := by
  have hlt : r.raw.toNat < 4 ^ q.count := by
    rw [hr, ← q.length_modes]
    exact value_lt _
  have hcount := count_of_raw_eq_zero hp
  constructor
  · intro h
    by_contra hne
    have hless := count_lt hne hlt
    have hjoined := h.count_eq
    omega
  · intro hzero
    rw [hzero, Nat.pow_zero, Nat.lt_one_iff] at hlt
    have hraw : r.raw = 0 := UInt32.toNat_inj.mp hlt
    refine joins_of_modes (.inl hraw) ?_
    rw [modes_of_count_eq_zero (count_of_raw_eq_zero hraw), modes_of_count_eq_zero hcount,
      modes_of_count_eq_zero hzero]
    rfl

/-- The modes of the second pack are moved in below the number of the first. -/
theorem concat_eq_ok (hq : q.WellFormed) (hcount : p.count + q.count ≤ capacity) :
    ∃ r, p.concat q = .ok r ∧ (p.raw = 0 → r.raw.toNat = value q.modes) ∧
      (p.Stores p.modes → r.Stores (p.modes ++ q.modes)) := by
  have hlength : (p.modes ++ q.modes).length ≤ capacity := by
    rwa [List.length_append, length_modes, length_modes]
  have hword := word_lt hlength
  rw [word_append, q.length_modes] at hword
  have hlow : value q.modes < UInt32.size := Nat.lt_of_le_of_lt (Nat.le_add_left _ _) hword
  rw [concat, if_pos hcount]
  refine ⟨_, rfl, fun hzero => ?_, fun hstores => ?_⟩
  · have hraw : p.raw.toNat * Nat.pow 4 q.count + q.raw.toNat % Nat.pow 4 q.count = value q.modes := by
      rw [hzero, UInt32.toNat_zero, Nat.zero_mul, Nat.zero_add]
      exact raw_mod_eq hq
    rw [hraw]
    exact UInt32.toNat_ofNat_of_lt' hlow
  · have hraw : p.raw.toNat * Nat.pow 4 q.count + q.raw.toNat % Nat.pow 4 q.count =
        word (p.modes ++ q.modes) := by
      rw [word_append, q.length_modes, ← raw_mod_eq hq, ← hstores]
      rfl
    rw [Stores, hraw]
    exact UInt32.toNat_ofNat_of_lt' (word_lt hlength)

/-- Two packs whose modes fit into one are joined. The result is the pack of all modes exactly if the
first pack has a sentinel or the second has no modes. -/
theorem concat_of_wellFormed (hp : p.WellFormed) (hq : q.WellFormed)
    (hcount : p.count + q.count ≤ capacity) : ∃ r, p.concat q = .ok r ∧
      (p.Joins q r ↔ p.raw ≠ 0 ∨ q.count = 0) ∧ (p.raw = 0 → r.raw.toNat = value q.modes) := by
  obtain ⟨r, hconcat, hraw, hjoined⟩ := concat_eq_ok hq hcount
  refine ⟨r, hconcat, ?_, hraw⟩
  by_cases hzero : p.raw = 0
  · rw [joins_iff_of_raw_eq_zero hzero (hraw hzero), or_iff_right (not_not.mpr hzero)]
  · have hstores := hjoined (stores_modes hp hzero)
    exact iff_of_true (joins_of_modes hstores.wellFormed hstores.modes_eq) (.inl hzero)

/-- Seven modes and eight modes make fifteen. -/
theorem concat_of_wellFormed_full :
    let p : Pack := ⟨0x4006⟩
    let q : Pack := ⟨0x10027⟩
    p.WellFormed ∧ q.WellFormed ∧ p.count + q.count ≤ capacity ∧ ∃ r, p.concat q = .ok r ∧
      p.Joins q r ∧ r.modes =
        [.na, .na, .na, .na, .na, .ro, .wo, .na, .na, .na, .na, .na, .wo, .ro, .rw] := by
  intro p q
  have hp : p.WellFormed := by decide
  have hq : q.WellFormed := by decide
  have hcount : p.count + q.count ≤ capacity := by decide
  obtain ⟨r, hconcat, hjoins, -⟩ := concat_of_wellFormed hp hq hcount
  have hjoins := hjoins.mpr (.inl (by decide))
  have hmodes : p.modes ++ q.modes =
      [.na, .na, .na, .na, .na, .ro, .wo, .na, .na, .na, .na, .na, .wo, .ro, .rw] := by decide
  exact ⟨hp, hq, hcount, r, hconcat, hjoins, hjoins.modes_eq.trans hmodes⟩

/-- A single `wo` after the pack of zero has no sentinel above it: the result counts no modes and is no
pack that a list gives. -/
theorem concat_without_sentinel :
    let p : Pack := ⟨0⟩
    let q : Pack := ⟨6⟩
    p.WellFormed ∧ q.WellFormed ∧ p.count + q.count ≤ capacity ∧ q.modes = [.wo] ∧
      p.concat q = .ok ⟨2⟩ ∧ ¬ WellFormed ⟨2⟩ ∧ modes ⟨2⟩ = [] ∧
        ¬ ∃ r, p.concat q = .ok r ∧ r.WellFormed ∧ r.modes = p.modes ++ q.modes := by
  intro p q
  have hconcat : p.concat q = .ok ⟨2⟩ := by decide
  refine ⟨by decide, by decide, by decide, by decide, hconcat, by decide, by decide, ?_⟩
  rintro ⟨r, hr, hwell, -⟩
  cases hconcat.symm.trans hr
  exact absurd hwell (by decide)

end Pack

end HaloMesh
