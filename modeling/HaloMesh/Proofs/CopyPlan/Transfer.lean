-- SUMMARY: Gathering runs into a message and scattering a message over runs, element by element.
import HaloMesh.CopyPlan.Refresh
import HaloMesh.Proofs.Bytes
import HaloMesh.Proofs.CopyPlan.Verify

/-!
# Transfers

A message holds the values of several runs, one after the other. The sender takes them from where the
runs start in its storage, and the receiver puts them where the runs start in its own, so each value
arrives in the slot that the same run names.
-/

namespace HaloMesh

namespace Run

open Bytes

/-- The values of a run, by the slots that they are taken from. -/
def taken (f : Nat → Bytes) (r : Run) : Bytes := (List.range r.length).flatMap fun i => f (r.src + i)

/-- The values of a run, by the slots that they are put to. -/
def given (v : Nat → Bytes) (r : Run) : Bytes := (List.range r.length).flatMap fun i => v (r.dest + i)

theorem taken_eq_given {f v : Nat → Bytes} {r : Run}
    (h : ∀ fill ∈ r.fills, f fill.src = v fill.dest) : r.taken f = r.given v := by
  refine List.flatMap_congr fun i hi => ?_
  exact h ⟨r.dest + i, r.source, r.src + i⟩ (List.mem_map.mpr ⟨i, hi, rfl⟩)

variable {size slots : Nat} {data : Bytes} {f v : Nat → Bytes} {runs : List Run}

theorem length_values {n : Nat} {g : Nat → Bytes} (hg : ∀ i < n, (g i).length = size) :
    ((List.range n).flatMap g).length = n * size := by
  have hsizes : (List.range n).map (fun i => (g i).length) = List.replicate n size := by
    refine List.eq_replicate_iff.mpr ⟨by simp, fun m hm => ?_⟩
    obtain ⟨i, hi, rfl⟩ := List.mem_map.mp hm
    exact hg i (List.mem_range.mp hi)
  rw [List.length_flatMap, hsizes, List.sum_replicate_nat]

theorem length_taken {r : Run} (hstop : r.src + r.length ≤ slots)
    (hf : ∀ i < slots, (f i).length = size) : (r.taken f).length = r.length * size :=
  length_values fun _ hi => hf _ (Nat.lt_of_lt_of_le (Nat.add_lt_add_left hi _) hstop)

theorem length_given {r : Run} (hstop : r.dest + r.length ≤ slots)
    (hv : ∀ i < slots, (v i).length = size) : (r.given v).length = r.length * size :=
  length_values fun _ hi => hv _ (Nat.lt_of_lt_of_le (Nat.add_lt_add_left hi _) hstop)

/-- A message has the length of all its values. -/
theorem length_message {values : Run → Bytes} (hvalues : ∀ r ∈ runs, (values r).length = r.length * size) :
    (runs.flatMap values).length = totalLength runs * size := by
  induction runs with
  | nil => simp [totalLength]
  | cons r runs ih =>
    have htotal : totalLength (r :: runs) = r.length + totalLength runs := rfl
    rw [List.flatMap_cons, List.length_append, hvalues r (by simp),
      ih fun s hs => hvalues s (by simp [hs]), htotal, Nat.add_mul]

/-! ## Gathering -/

theorem sourceBounds_eq_ok {r : Run} (hstop : r.src + r.length ≤ slots) (hslots : slots < Word.limit)
    (hbytes : slots * size ≤ Word.bufferLimit) :
    r.sourceBounds size = .ok (r.src * size, (r.src + r.length) * size) := by
  have hle : (r.src + r.length) * size ≤ Word.bufferLimit :=
    Nat.le_trans (Nat.mul_le_mul_right _ hstop) hbytes
  have hlow : r.src * size ≤ (r.src + r.length) * size :=
    Nat.mul_le_mul_right _ (Nat.le_add_right _ _)
  rw [sourceBounds, Word.mul_of_le (Nat.le_trans hlow hle), Checked.ok_bind,
    Word.add_of_lt (Nat.lt_of_le_of_lt hstop hslots), Checked.ok_bind,
    Word.mul_of_le hle]
  rfl

theorem gather_eq_ok (h : Shows size slots data f) (hstop : ∀ r ∈ runs, r.src + r.length ≤ slots)
    (hslots : slots < Word.limit) (hbytes : slots * size ≤ Word.bufferLimit)
    (htotal : totalLength runs < Word.limit) (hmessage : totalLength runs * size ≤ Word.bufferLimit) :
    gather size data runs = .ok (runs.flatMap (taken f)) := by
  have hvalues : runs.mapM (·.sourceBytes size data) = .ok (runs.map (taken f)) := by
    refine Checked.mapM_eq_ok fun r hr => ?_
    rw [sourceBytes, sourceBounds_eq_ok (hstop r hr) hslots hbytes, Checked.ok_bind]
    exact slice_eq_ok_iff.mpr (h.slice?_eq (hstop r hr))
  have hmul : Word.mul (totalLength runs) size = .ok (totalLength runs * size) :=
    Word.mul_of_le hmessage
  rw [gather, Summary.ofRuns_eq_ok htotal, Checked.ok_bind, Summary.total]
  simp only [hmul, Checked.ok_bind, Word.reserve_eq_ok_iff.mpr hmessage, hvalues, Checked.pure_eq_ok]
  rw [List.flatMap_def]

/-! ## Scattering -/

/-- Scattering a message patches the slots of its runs. -/
theorem shows_scatter {written : List Nat} (h : Shows size slots data (patch v f written))
    (hstop : ∀ r ∈ runs, r.dest + r.length ≤ slots) (hv : ∀ i < slots, (v i).length = size) :
    Shows size slots (scatter size runs (runs.flatMap (given v)) data)
      (patch v f (written ++ runs.flatMap dests)) := by
  induction runs generalizing data written with
  | nil =>
    rw [List.flatMap_nil, List.flatMap_nil, List.append_nil]
    exact h
  | cons r runs ih =>
    have hr := hstop r (by simp)
    have hlength := length_given hr hv
    rw [scatter, List.flatMap_cons, List.take_left' hlength, List.drop_left' hlength, List.flatMap_cons,
      ← List.append_assoc]
    exact ih (h.write_range hr hv) fun s hs => hstop s (by simp [hs])

/-- Copying a run within the storage patches its slots. -/
theorem copyWithin_eq_ok {r : Run} {written : List Nat} (h : Shows size slots data (patch v f written))
    (hsrc : r.src + r.length ≤ slots) (hdest : r.dest + r.length ≤ slots) (hslots : slots < Word.limit)
    (hbytes : slots * size ≤ Word.bufferLimit) (hv : ∀ i < slots, (v i).length = size)
    (hvalues : ∀ fill ∈ r.fills, patch v f written fill.src = v fill.dest) :
    ∃ data', copyWithin size data r = .ok data' ∧
      Shows size slots data' (patch v f (written ++ r.dests)) := by
  have hstart : r.dest * size ≤ slots * size :=
    Nat.mul_le_mul_right _ (Nat.le_trans (Nat.le_add_right _ _) hdest)
  have hgiven : ((List.range r.length).flatMap fun i => patch v f written (r.src + i)) = r.given v :=
    taken_eq_given hvalues
  refine ⟨_, ?_, h.write_range hdest hv⟩
  rw [copyWithin, sourceBounds_eq_ok hsrc hslots hbytes, Checked.ok_bind]
  simp only [Word.mul_of_le (Nat.le_trans hstart hbytes), Checked.ok_bind, h.slice?_eq hsrc, hgiven]
  rfl

end Run

end HaloMesh
