-- SUMMARY: A codec is lawful at a value if it writes the bytes it predicts and reads the value back.
import HaloMesh.Codec.Basic
import HaloMesh.Proofs.Checked

/-!
# Laws of codecs

Numbers are written at a fixed width, so a codec can lose values that are too large. Its laws are
therefore stated at a value, and those of a combinator follow from those of its parts.
-/

namespace HaloMesh

namespace LittleEndian

theorem value_encode (width n : Nat) : value (encode width n) = n % 256 ^ width := by
  induction width generalizing n with
  | zero => simp [encode, value, Nat.mod_one]
  | succ width ih =>
    have h : (UInt8.ofNat n).toNat = n % 256 := by simp
    rw [encode, value, ih, h, Nat.pow_succ', Nat.mod_mul]

theorem value_encode_of_lt {width n : Nat} (h : n < 256 ^ width) : value (encode width n) = n := by
  rw [value_encode, Nat.mod_eq_of_lt h]

end LittleEndian

namespace Codec

variable {α β : Type}

/-- The predicted length is right, and the value is read back from the front of any bytes. -/
structure LawfulAt (c : Codec α) (a : α) : Prop where
  length_eq : (c.encode a).length = c.size a
  decode_append : ∀ rest, c.decode (c.encode a ++ rest) = .ok (a, rest)

theorem LawfulAt.read_eq {c : Codec α} {a : α} (h : c.LawfulAt a) : c.read (c.encode a) = .ok a := by
  have hdecode := h.decode_append []
  rw [List.append_nil] at hdecode
  rw [read, hdecode]
  rfl

theorem lawfulAt_unsigned {width n : Nat} (h : n < 256 ^ width) : (unsigned width).LawfulAt n where
  length_eq := LittleEndian.length_encode width n
  decode_append rest := by
    have hlength := LittleEndian.length_encode width n
    have htake : (LittleEndian.encode width n ++ rest).take width = LittleEndian.encode width n :=
      List.take_left' hlength
    have hdrop : (LittleEndian.encode width n ++ rest).drop width = rest := List.drop_left' hlength
    have hfits : width ≤ (LittleEndian.encode width n ++ rest).length := by
      rw [List.length_append, hlength]
      exact Nat.le_add_right _ _
    simp only [unsigned, if_pos hfits, htake, hdrop, LittleEndian.value_encode_of_lt h]

theorem lawfulAt_word {n : Nat} (h : n < Word.limit) : word.LawfulAt n := lawfulAt_unsigned h

theorem LawfulAt.pair {c : Codec α} {d : Codec β} {a : α} {b : β} (ha : c.LawfulAt a)
    (hb : d.LawfulAt b) : (c.pair d).LawfulAt (a, b) where
  length_eq := by
    change (c.encode a ++ d.encode b).length = c.size a + d.size b
    rw [List.length_append, ha.length_eq, hb.length_eq]
  decode_append rest := by
    simp only [Codec.pair, List.append_assoc, ha.decode_append, hb.decode_append, Checked.ok_bind,
      Checked.pure_eq_ok]

theorem LawfulAt.iso {c : Codec α} {build : α → β} {view : β → α} {b : β}
    (h : c.LawfulAt (view b)) (hbuild : build (view b) = b) : (c.iso build view).LawfulAt b where
  length_eq := h.length_eq
  decode_append rest := by
    simp only [Codec.iso, h.decode_append, Checked.ok_bind, Checked.pure_eq_ok, hbuild]

end Codec

end HaloMesh
