-- SUMMARY: A pack holds the modes it was built from in order, and its predicates are those of the list.
import HaloMesh.Privilege.Pack
import HaloMesh.Proofs.Checked
import Mathlib.Data.List.Induction
import Mathlib.Data.Nat.Digits.Defs

/-!
# The modes of a pack

The codes of a list of modes are the digits of a number in base four. A pack stores that number with
a one above its highest digit, so the list can be read off again with its length, leading `na` modes
included. The predicates on a pack are functions of two bits: whether some mode reads, and whether
some mode writes.
-/

namespace HaloMesh

namespace Pack

/-! ## Modes as digits -/

/-- The number with the codes of modes as its digits in base four, the first mode highest. -/
def value (ms : List Privilege) : Nat := Nat.ofDigits 4 (ms.reverse.map Privilege.code)

/-- The number of modes with the sentinel above them. -/
def word (ms : List Privilege) : Nat := 4 ^ ms.length + value ms

theorem value_append (ms ns : List Privilege) :
    value (ms ++ ns) = value ms * 4 ^ ns.length + value ns := by
  rw [value, List.reverse_append, List.map_append, Nat.ofDigits_append, List.length_map,
    List.length_reverse, Nat.add_comm, Nat.mul_comm]
  rfl

theorem value_lt (ms : List Privilege) : value ms < 4 ^ ms.length := by
  have hlt := Nat.ofDigits_lt_base_pow_length (b := 4) (l := ms.reverse.map Privilege.code)
    (by decide) fun n hn => by
      obtain ⟨m, -, rfl⟩ := List.mem_map.mp hn
      exact m.code_lt
  rwa [List.length_map, List.length_reverse] at hlt

theorem word_append (ms ns : List Privilege) :
    word (ms ++ ns) = word ms * 4 ^ ns.length + value ns := by
  rw [word, value_append, List.length_append, Nat.pow_add, word, Nat.add_mul, Nat.add_assoc]

/-- The modes of the second list are shifted out. -/
theorem word_append_div (ms ns : List Privilege) : word (ms ++ ns) / 4 ^ ns.length = word ms := by
  rw [word_append, Nat.mul_comm, Nat.mul_add_div (Nat.pow_pos (by decide)),
    Nat.div_eq_of_lt (value_lt ns), Nat.add_zero]

/-- Only the sentinel is cut off. -/
theorem word_mod (ms : List Privilege) : word ms % 4 ^ ms.length = value ms := by
  rw [word, Nat.add_mod_left, Nat.mod_eq_of_lt (value_lt ms)]

theorem word_concat (ms : List Privilege) (m : Privilege) :
    word (ms ++ [m]) = 4 * word ms + m.code := by
  rw [word_append, Nat.mul_comm]
  rfl

/-- The sentinel is the highest bit. -/
theorem log2_word (ms : List Privilege) : (word ms).log2 = 2 * ms.length := by
  have hvalue := value_lt ms
  have hpow : 2 ^ (2 * ms.length) = 4 ^ ms.length := Nat.pow_mul 2 2 ms.length
  have hne : word ms ≠ 0 := by
    unfold word
    omega
  rw [Nat.log2_eq_iff hne, Nat.pow_succ, hpow]
  unfold word
  omega

theorem word_lt {ms : List Privilege} (h : ms.length ≤ capacity) : word ms < UInt32.size := by
  have hvalue := value_lt ms
  have hpow : 4 ^ ms.length ≤ 4 ^ capacity := Nat.pow_le_pow_right (by decide) h
  have hsize : 4 ^ capacity + 4 ^ capacity ≤ UInt32.size := by decide
  unfold word
  omega

/-! ## The modes of a word -/

/-- The pack stores the number of the modes. -/
def Stores (p : Pack) (ms : List Privilege) : Prop := p.raw.toNat = word ms

namespace Stores

variable {p q : Pack} {ms ns : List Privilege}

theorem count_eq (h : p.Stores ms) : p.count = ms.length := by
  rw [count, h, log2_word]
  exact Nat.mul_div_cancel_left _ (by decide)

/-- The modes after a position are shifted out, and the mode at the position is the last digit left. -/
theorem modeAt_eq (h : p.Stores ms) {i : Nat} (hi : i < ms.length) : p.modeAt i = ms[i] := by
  have hsplit : word ms = word (ms.take i ++ [ms[i]] ++ ms.drop (i + 1)) := by
    rw [List.append_assoc, List.singleton_append, List.getElem_cons_drop, List.take_append_drop]
  have hlength : ms.length - 1 - i = (ms.drop (i + 1)).length := by
    rw [List.length_drop]
    omega
  have hdigit : word ms / 4 ^ (ms.length - 1 - i) = 4 * word (ms.take i) + ms[i].code := by
    rw [hsplit, hlength, word_append_div, word_concat]
  rw [modeAt, h, h.count_eq]
  exact (congrArg Privilege.ofCode hdigit).trans (Privilege.ofCode_add_mul _ _)

theorem modes_eq (h : p.Stores ms) : p.modes = ms := by
  unfold modes
  refine List.ext_getElem (by simp [h.count_eq]) fun i _ hi => ?_
  rw [List.getElem_map, List.getElem_range]
  exact h.modeAt_eq hi

/-- Different lists have different words. -/
theorem unique (h : p.Stores ms) (h' : p.Stores ns) : ms = ns := h.modes_eq.symm.trans h'.modes_eq

end Stores

theorem stores_empty : empty.Stores [] := rfl

theorem Stores.push {p : Pack} {ms : List Privilege} (h : p.Stores ms)
    (hlength : ms.length < capacity) (m : Privilege) : (p.push m).Stores (ms ++ [m]) := by
  have hlt : word (ms ++ [m]) < UInt32.size := word_lt (by simpa using Nat.succ_le_of_lt hlength)
  rw [Stores, Pack.push, h, ← word_concat]
  exact UInt32.toNat_ofNat_of_lt' hlt

theorem stores_foldl_push {ms : List Privilege} (h : ms.length ≤ capacity) :
    (ms.foldl push empty).Stores ms := by
  induction ms using List.reverseRecOn with
  | nil => exact stores_empty
  | append_singleton ms m ih =>
    rw [List.length_append, List.length_singleton] at h
    rw [List.foldl_concat]
    exact (ih (Nat.le_of_succ_le h)).push h m

/-- A list has a pack exactly if it is not too long, and the pack stores it. -/
theorem ofModes_eq_ok_iff {ms : List Privilege} {p : Pack} :
    ofModes ms = .ok p ↔ ms.length ≤ capacity ∧ p.Stores ms := by
  unfold ofModes
  by_cases hlength : ms.length ≤ capacity
  · have hstores := stores_foldl_push hlength
    rw [if_pos hlength, Except.ok.injEq, and_iff_right hlength]
    constructor
    · rintro rfl
      exact hstores
    · intro h
      exact congrArg Pack.mk (UInt32.toNat_inj.mp (hstores.trans h.symm))
  · rw [if_neg hlength]
    simp [hlength]

end Pack

/-! ## The two bits of a code -/

namespace Privilege

/-- The code with given bits. -/
def bits (reads writes : Bool) : Nat := reads.toNat + 2 * writes.toNat

theorem code_eq_bits (m : Privilege) : m.code = bits m.reads m.writes := by cases m <;> rfl

theorem bits_or (r w r' w' : Bool) : bits r w ||| bits r' w' = bits (r || r') (w || w') := by
  cases r <;> cases w <;> cases r' <;> cases w' <;> rfl

theorem reads_eq_false_iff {m : Privilege} : m.reads = false ↔ m = .wo ∨ m = .na := by
  cases m <;> simp [reads]

theorem eq_wo_iff {m : Privilege} : m = .wo ↔ m.reads = false ∧ m.writes = true := by
  cases m <;> simp [reads, writes]

/-- The codes of modes, put together bit by bit. Of no modes this is the code of `na`. -/
def joined (ms : List Privilege) : Nat := ms.foldl (fun code m => code ||| m.code) 0

theorem foldl_code (ms : List Privilege) (r w : Bool) :
    ms.foldl (fun code m => code ||| m.code) (bits r w) =
      bits (r || ms.any reads) (w || ms.any writes) := by
  induction ms generalizing r w with
  | nil => simp
  | cons m ms ih =>
    rw [List.foldl_cons, code_eq_bits, bits_or, ih, List.any_cons, List.any_cons, Bool.or_assoc,
      Bool.or_assoc]

theorem joined_eq (ms : List Privilege) : joined ms = bits (ms.any reads) (ms.any writes) := by
  have hjoined := foldl_code ms false false
  rw [Bool.false_or, Bool.false_or] at hjoined
  exact hjoined

end Privilege

namespace Pack

section Bits

variable (p : Pack)

theorem anyBelow_eq (kind : Privilege → Bool) (n : Nat) :
    p.anyBelow kind n = ((List.range n).map p.modeAt).any kind := by
  induction n with
  | zero => rfl
  | succ n ih =>
    rw [anyBelow, ih, List.range_succ, List.map_append, List.any_append, Bool.or_comm]
    cases hkind : kind (p.modeAt n) <;> simp [hkind]

theorem allowsRead_eq : p.allowsRead = p.modes.any Privilege.reads := p.anyBelow_eq _ _

theorem allowsWrite_eq : p.allowsWrite = p.modes.any Privilege.writes := p.anyBelow_eq _ _

/-- The loop stops at a mode that reads, and it remembers a mode that only writes. -/
theorem discardsBelow_iff (n : Nat) (writes : Bool) : p.discardsBelow n writes = true ↔
    (∀ i < n, p.modeAt i = .wo ∨ p.modeAt i = .na) ∧ (writes = true ∨ ∃ i < n, p.modeAt i = .wo) := by
  induction n generalizing writes with
  | zero => simp [discardsBelow]
  | succ n ih =>
    rw [discardsBelow, Nat.forall_lt_succ_right, Nat.exists_lt_succ_right]
    cases hmode : p.modeAt n with
    | wo => simp [ih]
    | na => simp [ih]
    | ro => simp
    | rw => simp

theorem discards_iff : p.discards = true ↔ (∀ m ∈ p.modes, m = .wo ∨ m = .na) ∧ .wo ∈ p.modes := by
  rw [discards, discardsBelow_iff]
  simp [modes]

/-- Existing data are discarded if they are written and never read. -/
theorem discards_eq : p.discards = (p.allowsWrite && !p.allowsRead) := by
  have hreads : (!p.allowsRead) = true ↔ ∀ m ∈ p.modes, m.reads = false := by
    simp [allowsRead_eq]
  rw [Bool.eq_iff_iff, discards_iff, Bool.and_eq_true, hreads, allowsWrite_eq, List.any_eq_true]
  constructor
  · rintro ⟨hall, hwo⟩
    exact ⟨⟨.wo, hwo, rfl⟩, fun m hm => Privilege.reads_eq_false_iff.mpr (hall m hm)⟩
  · rintro ⟨⟨m, hm, hwrites⟩, hall⟩
    obtain rfl := Privilege.eq_wo_iff.mpr ⟨hall m hm, hwrites⟩
    exact ⟨fun m hm => Privilege.reads_eq_false_iff.mp (hall m hm), hm⟩

theorem code_merge : p.merge.code = Privilege.bits p.allowsRead p.allowsWrite := by
  rw [merge, discards_eq]
  cases p.allowsRead <;> cases p.allowsWrite <;> rfl

theorem reads_merge : p.merge.reads = p.allowsRead := by
  rw [merge, discards_eq]
  cases p.allowsRead <;> cases p.allowsWrite <;> rfl

/-- A write matters only if the data are read as well, so the refresh hangs on reading alone. -/
theorem shouldRefresh_eq : p.shouldRefresh = p.allowsRead := by
  rw [shouldRefresh, discards_eq]
  cases p.allowsRead <;> cases p.allowsWrite <;> rfl

end Bits

/-! ## What a pack says of its modes -/

/-- A pack tells how many modes there are, which ones in which order, and what they allow together. -/
structure Reports (p : Pack) (ms : List Privilege) : Prop where
  count_eq : p.count = ms.length
  modes_eq : p.modes = ms
  gets : (List.range p.count).mapM p.get = .ok ms
  allowsWrite_iff : p.allowsWrite = true ↔ ∃ m ∈ ms, m.writes = true
  allowsRead_iff : p.allowsRead = true ↔ ∃ m ∈ ms, m.reads = true
  discards_iff : p.discards = true ↔ (∀ m ∈ ms, m = .wo ∨ m = .na) ∧ .wo ∈ ms
  code_merge : p.merge.code = Privilege.joined ms
  shouldRefresh_iff : p.shouldRefresh = true ↔ ∃ m ∈ ms, m.reads = true
  shouldRefresh_eq : p.shouldRefresh = p.merge.reads

theorem Stores.reports {p : Pack} {ms : List Privilege} (h : p.Stores ms) : p.Reports ms := by
  have hmodes := h.modes_eq
  have hread : p.allowsRead = true ↔ ∃ m ∈ ms, m.reads = true := by
    rw [allowsRead_eq, hmodes, List.any_eq_true]
  have hget : (List.range p.count).mapM p.get = .ok p.modes :=
    Checked.mapM_eq_ok fun i hi => if_pos (List.mem_range.mp hi)
  refine
    { count_eq := h.count_eq
      modes_eq := hmodes
      gets := hmodes ▸ hget
      allowsWrite_iff := ?_
      allowsRead_iff := hread
      discards_iff := hmodes ▸ p.discards_iff
      code_merge := ?_
      shouldRefresh_iff := p.shouldRefresh_eq ▸ hread
      shouldRefresh_eq := p.shouldRefresh_eq.trans p.reads_merge.symm }
  · rw [allowsWrite_eq, hmodes, List.any_eq_true]
  · rw [p.code_merge, Privilege.joined_eq, allowsRead_eq, allowsWrite_eq, hmodes]

/-- Every list of modes that is not too long has a pack, which reports the list. No other list has a
pack with the same number. -/
theorem ofModes_reports {ms : List Privilege} (h : ms.length ≤ capacity) :
    ∃ p, ofModes ms = .ok p ∧ p.Reports ms ∧
      ∀ ns q, ofModes ns = .ok q → q.raw = p.raw → ns = ms := by
  have hstores := stores_foldl_push h
  refine ⟨_, ofModes_eq_ok_iff.mpr ⟨h, hstores⟩, hstores.reports, fun ns q hq hraw => ?_⟩
  have hother : q.Stores ns := (ofModes_eq_ok_iff.mp hq).2
  rw [Stores, hraw] at hother
  exact Stores.unique hother hstores

/-- Fifteen modes, the first of which are `na`. -/
theorem ofModes_reports_full :
    let ms : List Privilege := List.replicate 7 .na ++ List.replicate 7 .wo ++ [.ro]
    ms.length ≤ capacity ∧ ∃ p, ofModes ms = .ok p ∧ p.Reports ms ∧
      ∀ ns q, ofModes ns = .ok q → q.raw = p.raw → ns = ms := by
  intro ms
  have hlength : ms.length ≤ capacity := by decide
  exact ⟨hlength, ofModes_reports hlength⟩

end Pack

end HaloMesh
