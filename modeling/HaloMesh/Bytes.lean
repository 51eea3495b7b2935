-- SUMMARY: Byte strings: slices that fault past the end, and overwriting in place.
import HaloMesh.Fault
import HaloMesh.LittleEndian

namespace HaloMesh

namespace Bytes

def zeros (n : Nat) : Bytes := List.replicate n 0

/-- The bytes from `start` up to `stop`, or none if these go past the end. -/
def slice? (bytes : Bytes) (start stop : Nat) : Option Bytes :=
  if stop ≤ bytes.length then some ((bytes.take stop).drop start) else none

/-- The bytes from `start` up to `stop`, which faults past the end. -/
def slice (bytes : Bytes) (start stop : Nat) : Except Fault Bytes :=
  match bytes.slice? start stop with
  | some part => .ok part
  | none =>
    if bytes.length < start then .error (.sliceStart bytes.length start)
    else .error (.sliceStop bytes.length stop)

/-- A slice that does not fault is the one there is. -/
theorem slice_eq_ok_iff {bytes part : Bytes} {start stop : Nat} :
    bytes.slice start stop = .ok part ↔ bytes.slice? start stop = some part := by
  unfold slice
  cases bytes.slice? start stop with
  | some _ => simp
  | none =>
    by_cases h : bytes.length < start
    · simp [h]
    · simp [h]

/-- Put `new` over the bytes from `start` on. -/
def overwrite (bytes : Bytes) (start : Nat) (new : Bytes) : Bytes :=
  bytes.take start ++ new ++ bytes.drop (start + new.length)

/-- Overwriting inside the storage keeps its length. -/
theorem length_overwrite {bytes new : Bytes} {start : Nat} (h : start + new.length ≤ bytes.length) :
    (bytes.overwrite start new).length = bytes.length := by
  simp only [overwrite, List.length_append, List.length_take, List.length_drop]
  omega

/-- Overwriting changes exactly the bytes it covers. -/
theorem getElem?_overwrite {bytes new : Bytes} {start i : Nat}
    (h : start + new.length ≤ bytes.length) :
    (bytes.overwrite start new)[i]? =
      if start ≤ i ∧ i < start + new.length then new[i - start]? else bytes[i]? := by
  have hs : (bytes.take start).length = start := by simp; omega
  unfold overwrite
  by_cases h₁ : i < start
  · rw [List.append_assoc, List.getElem?_append_left (by omega), List.getElem?_take_of_lt h₁,
      if_neg (by omega)]
  · by_cases h₂ : i < start + new.length
    · rw [List.getElem?_append_left (by simp; omega), List.getElem?_append_right (by omega), hs,
        if_pos (by omega)]
    · rw [List.getElem?_append_right (by simp; omega), List.getElem?_drop, if_neg (by omega)]
      congr 1
      simp
      omega

/-- A slice has the length between its ends. -/
theorem length_of_slice? {bytes part : Bytes} {start stop : Nat}
    (h : bytes.slice? start stop = some part) : part.length = stop - start := by
  unfold slice? at h
  split at h
  · cases h
    simp
    omega
  · cases h

end Bytes

end HaloMesh
