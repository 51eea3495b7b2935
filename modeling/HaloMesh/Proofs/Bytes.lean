-- SUMMARY: Byte storage as a list of elements of one size, and what overwriting does to them.
import HaloMesh.Bytes
import Mathlib.Data.List.Basic

/-!
# Elements of byte storage

The storage of a field holds elements of one size, one after the other. Slices that start and stop
between elements are lists of elements, and overwriting whole elements leaves the others as they are.
-/

namespace HaloMesh

namespace Bytes

/-- The element at an index. -/
def element (size : Nat) (data : Bytes) (i : Nat) : Bytes := (data.drop (i * size)).take size

/-- Storage of `slots` elements that are known by their index. -/
structure Shows (size slots : Nat) (data : Bytes) (f : Nat → Bytes) : Prop where
  length_eq : data.length = slots * size
  element_eq : ∀ i < slots, data.element size i = f i

variable {size slots : Nat} {data : Bytes} {f v : Nat → Bytes}

theorem shows_element (h : data.length = slots * size) : Shows size slots data (data.element size) :=
  ⟨h, fun _ _ => rfl⟩

theorem Shows.congr (h : Shows size slots data f) {g : Nat → Bytes} (hfg : ∀ i < slots, f i = g i) :
    Shows size slots data g :=
  ⟨h.length_eq, fun i hi => (h.element_eq i hi).trans (hfg i hi)⟩

theorem length_element {i : Nat} (h : data.length = slots * size) (hi : i < slots) :
    (data.element size i).length = size := by
  have hle : (i + 1) * size ≤ slots * size := Nat.mul_le_mul_right _ hi
  rw [Nat.succ_mul] at hle
  rw [element, List.length_take, List.length_drop]
  omega

/-! ## Slices -/

theorem take_drop_elements (size : Nat) (data : Bytes) (a n : Nat) :
    (data.drop (a * size)).take (n * size) =
      (List.range n).flatMap fun i => data.element size (a + i) := by
  induction n with
  | zero => simp
  | succ n ih =>
    rw [Nat.succ_mul, List.take_add, ih, List.range_succ, List.flatMap_append, List.flatMap_singleton,
      List.drop_drop, ← Nat.add_mul]
    rfl

/-- A slice between elements holds these elements. -/
theorem Shows.slice?_eq (h : Shows size slots data f) {a n : Nat} (hle : a + n ≤ slots) :
    data.slice? (a * size) ((a + n) * size) = some ((List.range n).flatMap fun i => f (a + i)) := by
  have hstop : (a + n) * size ≤ data.length := h.length_eq ▸ Nat.mul_le_mul_right _ hle
  have hwidth : (a + n) * size - a * size = n * size := by
    rw [Nat.add_mul, Nat.add_sub_cancel_left]
  rw [slice?, if_pos hstop, List.drop_take, hwidth, take_drop_elements]
  refine congrArg some (List.flatMap_congr fun i hi => ?_)
  have hlt : a + i < slots :=
    Nat.lt_of_lt_of_le (Nat.add_lt_add_left (List.mem_range.mp hi) a) hle
  exact h.element_eq _ hlt

/-! ## Overwriting -/

theorem element_ext {data' : Bytes} {i : Nat}
    (h : ∀ k < size, data[i * size + k]? = data'[i * size + k]?) :
    data.element size i = data'.element size i := by
  refine List.ext_getElem? fun k => ?_
  simp only [element, List.getElem?_take, List.getElem?_drop]
  split
  · rename_i hk
    exact h k hk
  · rfl

theorem element_overwrite {i j : Nat} {e : Bytes} (he : e.length = size)
    (hi : (i + 1) * size ≤ data.length) :
    (data.overwrite (i * size) e).element size j = if j = i then e else data.element size j := by
  have hbound : i * size + e.length ≤ data.length := by rwa [he, ← Nat.succ_mul]
  split
  · rename_i heq
    have hstart : (data.take (i * size)).length = i * size :=
      List.length_take_of_le (Nat.le_trans (Nat.le_add_right _ _) hbound)
    rw [heq, element, overwrite, List.append_assoc, List.drop_left' hstart, List.take_left' he]
  · rename_i hne
    refine element_ext fun k hk => ?_
    rw [getElem?_overwrite hbound, if_neg]
    rintro ⟨hlow, hhigh⟩
    rw [he, ← Nat.succ_mul] at hhigh
    -- The byte would lie in the element at `i`, but it lies in the one at `j`.
    rcases Nat.lt_or_gt_of_ne hne with hlt | hgt
    · have hle : (j + 1) * size ≤ i * size := Nat.mul_le_mul_right _ hlt
      rw [Nat.succ_mul] at hle
      omega
    · have hle : (i + 1) * size ≤ j * size := Nat.mul_le_mul_right _ hgt
      exact absurd (Nat.lt_of_lt_of_le hhigh hle) (Nat.not_lt.mpr (Nat.le_add_right _ _))

theorem overwrite_nil (data : Bytes) (start : Nat) : data.overwrite start [] = data := by
  simp [overwrite]

/-- Two parts can be written one after the other. -/
theorem overwrite_append {start : Nat} {xs ys : Bytes}
    (h : start + xs.length ≤ data.length) :
    data.overwrite start (xs ++ ys) = (data.overwrite start xs).overwrite (start + xs.length) ys := by
  have hstart : (data.take start).length = start :=
    List.length_take_of_le (Nat.le_trans (Nat.le_add_right _ _) h)
  have hfront : (data.take start ++ xs).length = start + xs.length := by
    rw [List.length_append, hstart]
  have htake : (data.overwrite start xs).take (start + xs.length) = data.take start ++ xs :=
    List.take_left' hfront
  have hdrop : (data.overwrite start xs).drop (start + xs.length + ys.length) =
      data.drop (start + (xs ++ ys).length) := by
    rw [← List.drop_drop, overwrite, List.drop_left' hfront, List.drop_drop, List.length_append,
      Nat.add_assoc]
  rw [overwrite, overwrite, htake, hdrop]
  simp only [List.append_assoc]

/-! ## Patches -/

/-- New values at some indices. -/
def patch (v f : Nat → Bytes) (written : List Nat) (i : Nat) : Bytes :=
  if i ∈ written then v i else f i

theorem Shows.write (h : Shows size slots data f) {i : Nat} (hi : i < slots) {e : Bytes}
    (he : e.length = size) :
    Shows size slots (data.overwrite (i * size) e) fun j => if j = i then e else f j := by
  have hle : (i + 1) * size ≤ data.length := h.length_eq ▸ Nat.mul_le_mul_right _ hi
  have hbound : i * size + e.length ≤ data.length := by rwa [he, ← Nat.succ_mul]
  refine ⟨(length_overwrite hbound).trans h.length_eq, fun j hj => ?_⟩
  rw [element_overwrite he hle, h.element_eq j hj]

/-- Writing consecutive elements patches their indices. -/
theorem Shows.write_range {written : List Nat} (h : Shows size slots data (patch v f written))
    {start n : Nat} (hstop : start + n ≤ slots) (hv : ∀ i < slots, (v i).length = size) :
    Shows size slots (data.overwrite (start * size) ((List.range n).flatMap fun i => v (start + i)))
      (patch v f (written ++ (List.range n).map (start + ·))) := by
  induction n with
  | zero =>
    rw [List.range_zero, List.flatMap_nil, overwrite_nil, List.map_nil, List.append_nil]
    exact h
  | succ n ih =>
    have hlt : start + n < slots := hstop
    have hlength : ((List.range n).flatMap fun i => v (start + i)).length = n * size := by
      have hsizes : (List.range n).map (fun i => (v (start + i)).length) = List.replicate n size := by
        refine List.eq_replicate_iff.mpr ⟨by simp, fun m hm => ?_⟩
        obtain ⟨i, hi, rfl⟩ := List.mem_map.mp hm
        exact hv _ (Nat.lt_trans (Nat.add_lt_add_left (List.mem_range.mp hi) start) hlt)
      rw [List.length_flatMap, hsizes, List.sum_replicate_nat]
    have hfront : start * size + n * size ≤ data.length := by
      rw [← Nat.add_mul, h.length_eq]
      exact Nat.mul_le_mul_right _ (Nat.le_of_lt hlt)
    have hlast := (ih (Nat.le_of_lt hlt)).write hlt (hv _ hlt)
    rw [List.range_succ, List.flatMap_append, List.flatMap_singleton,
      overwrite_append (hlength ▸ hfront), hlength, ← Nat.add_mul]
    refine hlast.congr fun j _ => ?_
    rw [List.map_append, ← List.append_assoc, patch, patch, List.map_singleton]
    by_cases heq : j = start + n
    · rw [if_pos heq, if_pos (List.mem_append_right _ (List.mem_singleton.mpr heq)), heq]
    · simp [heq]

end Bytes

end HaloMesh
