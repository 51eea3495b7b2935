-- SUMMARY: The laws of the codecs for lists, texts, truth values, coordinates and results.
import HaloMesh.Proofs.Codec.Laws

/-!
# Compound values

The codecs that put values together are lawful wherever those of the parts are, as long as the
lengths that they write fit a word. A length fits if the bytes behind it do, so a bound on the size of
a message bounds all lengths in it.
-/

namespace HaloMesh

namespace Codec

variable {α β ε : Type}

/-! ## Numbers -/

theorem lawfulAt_word32 {n : Nat} (h : n < 2 ^ 32) : word32.LawfulAt n := lawfulAt_unsigned h

theorem lawfulAt_byte {n : Nat} (h : n < 256) : byte.LawfulAt n := lawfulAt_unsigned h

/-- Coordinates are written in two's complement. -/
theorem lawfulAt_signed {z : Int} (h : Signed.InRange z) : signed.LawfulAt z := by
  have hsize : (UInt64.size : Int) = 2 ^ 64 := rfl
  have hmod : 0 ≤ z % (UInt64.size : Int) := Int.emod_nonneg z (by decide)
  obtain ⟨hlow, hhigh⟩ := h
  apply LawfulAt.iso
  · apply lawfulAt_word
    have hlt : z % (UInt64.size : Int) < UInt64.size := Int.emod_lt_of_pos z (by decide)
    unfold Word.limit
    omega
  · rw [Int.toNat_of_nonneg hmod, Int.emod_bmod]
    apply Int.bmod_eq_of_le
    · rw [hsize]
      omega
    · rw [hsize]
      omega

theorem lawfulAt_bool (b : Bool) : bool.LawfulAt b where
  length_eq := LittleEndian.length_encode _ _
  decode_append rest := by
    cases b with
    | false =>
      have hbyte := (@lawfulAt_byte 0 (by decide)).decode_append rest
      simp only [bool, if_neg Bool.false_ne_true, hbyte, Checked.ok_bind, Checked.pure_eq_ok]
    | true =>
      have hbyte := (@lawfulAt_byte 1 (by decide)).decode_append rest
      simp only [bool, if_true, hbyte, Checked.ok_bind, Checked.pure_eq_ok]

/-! ## Lists -/

theorem decodeMany_append {c : Codec α} {as : List α} (h : ∀ a ∈ as, c.LawfulAt a) (rest : Bytes) :
    decodeMany c as.length (as.flatMap c.encode ++ rest) = .ok (as, rest) := by
  induction as with
  | nil => rfl
  | cons a as ih =>
    have ih := ih fun b hb => h b (by simp [hb])
    rw [List.length_cons, decodeMany, List.flatMap_cons, List.append_assoc,
      (h a (by simp)).decode_append, Checked.ok_bind]
    simp only [ih, Checked.ok_bind, Checked.pure_eq_ok]

theorem lawfulAt_list {c : Codec α} {as : List α} (hlength : as.length < Word.limit)
    (h : ∀ a ∈ as, c.LawfulAt a) : c.list.LawfulAt as where
  length_eq := by
    have hbytes : (as.flatMap c.encode).length = as.foldr (c.size · + ·) 0 := by
      clear hlength
      induction as with
      | nil => rfl
      | cons a as ih =>
        rw [List.flatMap_cons, List.length_append, (h a (by simp)).length_eq,
          ih fun b hb => h b (by simp [hb]), List.foldr_cons]
    show (word.encode as.length ++ as.flatMap c.encode).length = 8 + as.foldr (c.size · + ·) 0
    rw [List.length_append, hbytes, (lawfulAt_word hlength).length_eq]
    rfl
  decode_append rest := by
    have hword := (lawfulAt_word hlength).decode_append (as.flatMap c.encode ++ rest)
    simp only [list, List.append_assoc, hword, Checked.ok_bind, decodeMany_append h]

/-- A list takes at least a byte per element if each of them does. -/
theorem length_le_size_list {c : Codec α} (hpos : ∀ a, 0 < c.size a) (as : List α) :
    as.length ≤ c.list.size as := by
  show as.length ≤ 8 + as.foldr (c.size · + ·) 0
  induction as with
  | nil => exact Nat.zero_le _
  | cons a as ih =>
    have ha := hpos a
    rw [List.length_cons, List.foldr_cons]
    omega

/-! ## Texts -/

theorem loop_toList (bytes : ByteArray) (i : Nat) (found : List UInt8) :
    ByteArray.toList.loop bytes i found = found.reverse ++ bytes.data.toList.drop i := by
  induction i, found using ByteArray.toList.loop.induct bytes with
  | case1 i found hlt ih =>
    have hi : i < bytes.data.toList.length := hlt
    have hbyte : bytes.get! i = bytes.data.toList[i] := getElem!_pos bytes.data i hlt
    rw [ByteArray.toList.loop, if_pos hlt, ih, hbyte, List.drop_eq_getElem_cons hi,
      List.reverse_cons, List.append_assoc]
    rfl
  | case2 i found hge =>
    have hle : bytes.data.toList.length ≤ i := Nat.not_lt.mp hge
    rw [ByteArray.toList.loop, if_neg hge, List.drop_of_length_le hle, List.append_nil]

theorem toList_byteArray (bytes : ByteArray) : bytes.toList = bytes.data.toList := by
  rw [ByteArray.toList, loop_toList]
  rfl

theorem lawfulAt_text {s : String} (h : s.utf8ByteSize < Word.limit) : text.LawfulAt s where
  length_eq := by
    show (word.encode s.toUTF8.size ++ s.toUTF8.toList).length = 8 + s.utf8ByteSize
    have hword : word.LawfulAt s.toUTF8.size := lawfulAt_word h
    rw [List.length_append, toList_byteArray, hword.length_eq]
    rfl
  decode_append rest := by
    have hsize : s.toUTF8.toList.length = s.toUTF8.size := by
      rw [toList_byteArray]
      rfl
    have hword : word.LawfulAt s.toUTF8.size := lawfulAt_word h
    have htext : String.fromUTF8? ⟨s.toUTF8.toList.toArray⟩ = some s := by
      rw [toList_byteArray]
      exact dif_pos s.isValidUTF8
    have hfits : s.toUTF8.size ≤ (s.toUTF8.toList ++ rest).length := by
      rw [List.length_append, hsize]
      exact Nat.le_add_right _ _
    simp only [text, List.append_assoc, hword.decode_append, Checked.ok_bind, if_pos hfits, List.take_left' hsize,
      List.drop_left' hsize, htext, Checked.pure_eq_ok]

/-! ## Results -/

theorem lawfulAt_result {failure : Codec ε} {success : Codec α} {x : Except ε α}
    (herror : ∀ e, x = .error e → failure.LawfulAt e) (hok : ∀ a, x = .ok a → success.LawfulAt a) :
    (result failure success).LawfulAt x where
  length_eq := by
    cases x with
    | ok a =>
      show (word32.encode 0 ++ success.encode a).length = 4 + success.size a
      rw [List.length_append, (hok a rfl).length_eq, (@lawfulAt_word32 0 (by decide)).length_eq]
      rfl
    | error e =>
      show (word32.encode 1 ++ failure.encode e).length = 4 + failure.size e
      rw [List.length_append, (herror e rfl).length_eq, (@lawfulAt_word32 1 (by decide)).length_eq]
      rfl
  decode_append rest := by
    cases x with
    | ok a =>
      have hindex := (@lawfulAt_word32 0 (by decide)).decode_append (success.encode a ++ rest)
      simp only [result, List.append_assoc, hindex, Checked.ok_bind, (hok a rfl).decode_append,
        Checked.pure_eq_ok]
    | error e =>
      have hindex := (@lawfulAt_word32 1 (by decide)).decode_append (failure.encode e ++ rest)
      simp only [result, List.append_assoc, hindex, Checked.ok_bind, (herror e rfl).decode_append,
        Checked.pure_eq_ok]

end Codec

end HaloMesh
