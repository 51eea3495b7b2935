-- SUMMARY: No message that was cut short is read as a value, whatever lists, texts and choices it is put together from.
import HaloMesh.Collective.Packer
import HaloMesh.Proofs.Codec.Compound

/-!
# Messages that are cut short

A lawful codec finds the end of a value on its own, so it can be followed by any bytes. It delimits the
value if, beyond that, it reads nothing from bytes that end before. This is again a law at a value, and a
reader that goes on from the result of another fails on a cut in either of the two parts. So all layouts
that are put together from numbers delimit the values that they are lawful at.
-/

namespace HaloMesh

namespace Codec

variable {α β ε : Type}

/-! ## Readers -/

/-- The reader fails on every strict beginning of the bytes. -/
def RejectsCuts (read : Bytes → Except CodecError α) (bytes : Bytes) : Prop :=
  ∀ cut rest, rest ≠ [] → cut ++ rest = bytes → ∃ cause, read cut = .error cause

/-- Nothing can be cut off no bytes. -/
theorem rejectsCuts_nil (read : Bytes → Except CodecError α) : RejectsCuts read [] := by
  intro cut rest hrest heq
  exact absurd (List.append_eq_nil_iff.mp heq).2 hrest

/-- Bytes that one reader leaves to the next can be cut in the part of either. -/
theorem RejectsCuts.bind {read : Bytes → Except CodecError (α × Bytes)}
    {next : α × Bytes → Except CodecError β} {front back : Bytes} {a : α}
    (hread : ∀ rest, read (front ++ rest) = .ok (a, rest)) (hfront : RejectsCuts read front)
    (hback : RejectsCuts (fun rest => next (a, rest)) back) :
    RejectsCuts (fun bytes => read bytes >>= next) (front ++ back) := by
  intro cut rest hrest heq
  have hlater : ∀ mid, mid ++ rest = back → ∃ cause, (read (front ++ mid) >>= next) = .error cause := by
    intro mid hmid
    rw [hread, Checked.ok_bind]
    exact hback mid rest hrest hmid
  rcases List.append_eq_append_iff.mp heq with ⟨mid, hmid, hrestEq⟩ | ⟨mid, rfl, hbackEq⟩
  · by_cases hnil : mid = []
    · -- The cut stands between the two parts.
      subst hnil
      rw [List.append_nil] at hmid
      subst hmid
      have hend := hlater [] hrestEq
      rwa [List.append_nil] at hend
    · obtain ⟨cause, hcause⟩ := hfront cut mid hnil hmid.symm
      exact ⟨cause, by simp only [hcause, Checked.error_bind]⟩
  · exact hlater mid hbackEq.symm

/-- What is done with a value that has been read does not help on a cut. -/
theorem RejectsCuts.andThen {read : Bytes → Except CodecError (α × Bytes)}
    {next : α × Bytes → Except CodecError β} {bytes : Bytes} (h : RejectsCuts read bytes) :
    RejectsCuts (fun bytes => read bytes >>= next) bytes := by
  intro cut rest hrest heq
  obtain ⟨cause, hcause⟩ := h cut rest hrest heq
  exact ⟨cause, by simp only [hcause, Checked.error_bind]⟩

/-! ## Delimited values -/

/-- The value is read back from the front of any bytes, and nothing is read from fewer bytes than it was
written to. -/
structure DelimitsAt (c : Codec α) (a : α) : Prop extends c.LawfulAt a where
  cuts : RejectsCuts c.decode (c.encode a)

theorem delimitsAt_unsigned {width n : Nat} (h : n < 256 ^ width) : (unsigned width).DelimitsAt n where
  toLawfulAt := lawfulAt_unsigned h
  cuts := by
    intro cut rest hrest heq
    have hlength : cut.length + rest.length = width := by
      rw [← List.length_append, heq]
      exact LittleEndian.length_encode width n
    have hpos : 0 < rest.length := List.length_pos_iff.mpr hrest
    exact ⟨.endOfInput, if_neg (by omega)⟩

theorem delimitsAt_word {n : Nat} (h : n < Word.limit) : word.DelimitsAt n := delimitsAt_unsigned h

theorem delimitsAt_word32 {n : Nat} (h : n < 2 ^ 32) : word32.DelimitsAt n := delimitsAt_unsigned h

theorem DelimitsAt.pair {c : Codec α} {d : Codec β} {a : α} {b : β} (ha : c.DelimitsAt a)
    (hb : d.DelimitsAt b) : (c.pair d).DelimitsAt (a, b) where
  toLawfulAt := ha.toLawfulAt.pair hb.toLawfulAt
  cuts := ha.cuts.bind ha.decode_append hb.cuts.andThen

theorem DelimitsAt.iso {c : Codec α} {build : α → β} {view : β → α} {b : β}
    (h : c.DelimitsAt (view b)) (hbuild : build (view b) = b) : (c.iso build view).DelimitsAt b where
  toLawfulAt := h.toLawfulAt.iso hbuild
  cuts := h.cuts.andThen

theorem delimitsAt_signed {z : Int} (h : Signed.InRange z) : signed.DelimitsAt z where
  toLawfulAt := lawfulAt_signed h
  cuts := by
    have hpos : (0 : Int) < UInt64.size := by decide
    have hlimit : (UInt64.size : Int) = Word.limit := rfl
    have hmod := Int.emod_nonneg z hpos.ne'
    have hlt := Int.emod_lt_of_pos z hpos
    have hword : word.DelimitsAt (z % (UInt64.size : Int)).toNat := delimitsAt_word (by omega)
    exact hword.cuts.andThen

theorem delimitsAt_bool (b : Bool) : bool.DelimitsAt b where
  toLawfulAt := lawfulAt_bool b
  cuts := by
    have hbyte : byte.DelimitsAt (if b then 1 else 0) := by
      refine delimitsAt_unsigned ?_
      cases b <;> decide
    exact hbyte.cuts.andThen

/-! ## Lists -/

/-- A list is cut short inside the first of its elements that is. -/
theorem rejectsCuts_decodeMany {c : Codec α} {as : List α} (h : ∀ a ∈ as, c.DelimitsAt a) :
    RejectsCuts (decodeMany c as.length) (as.flatMap c.encode) := by
  induction as with
  | nil => exact rejectsCuts_nil _
  | cons a as ih =>
    have ha : c.DelimitsAt a := h a (by simp)
    have hrest := ih fun b hb => h b (by simp [hb])
    rw [List.flatMap_cons]
    exact ha.cuts.bind ha.decode_append hrest.andThen

theorem delimitsAt_list {c : Codec α} {as : List α} (hlength : as.length < Word.limit)
    (h : ∀ a ∈ as, c.DelimitsAt a) : c.list.DelimitsAt as where
  toLawfulAt := lawfulAt_list hlength fun a ha => (h a ha).toLawfulAt
  cuts := by
    have hword := delimitsAt_word hlength
    exact hword.cuts.bind hword.decode_append (rejectsCuts_decodeMany h)

/-! ## Texts -/

theorem delimitsAt_text {s : String} (h : s.utf8ByteSize < Word.limit) : text.DelimitsAt s where
  toLawfulAt := lawfulAt_text h
  cuts := by
    have hword : word.DelimitsAt s.toUTF8.size := delimitsAt_word h
    have hsize : s.toUTF8.toList.length = s.toUTF8.size := by
      rw [toList_byteArray]
      rfl
    refine hword.cuts.bind hword.decode_append fun cut rest hrest heq => ?_
    have hlength := congrArg List.length heq
    rw [List.length_append, hsize] at hlength
    have hpos : 0 < rest.length := List.length_pos_iff.mpr hrest
    exact ⟨.missingText, if_neg (by omega)⟩

/-! ## Results -/

theorem delimitsAt_result {failure : Codec ε} {success : Codec α} {x : Except ε α}
    (herror : ∀ e, x = .error e → failure.DelimitsAt e) (hok : ∀ a, x = .ok a → success.DelimitsAt a) :
    (result failure success).DelimitsAt x where
  toLawfulAt := lawfulAt_result (fun e he => (herror e he).toLawfulAt) fun a ha => (hok a ha).toLawfulAt
  cuts := by
    cases x with
    | ok a =>
      have hindex : word32.DelimitsAt 0 := delimitsAt_word32 (by decide)
      exact hindex.cuts.bind hindex.decode_append (hok a rfl).cuts.andThen
    | error e =>
      have hindex : word32.DelimitsAt 1 := delimitsAt_word32 (by decide)
      exact hindex.cuts.bind hindex.decode_append (herror e rfl).cuts.andThen

/-! ## Whole messages -/

/-- A message that was cut short is not read. -/
theorem DelimitsAt.read_cut {c : Codec α} {a : α} (h : c.DelimitsAt a) {cut : Bytes}
    (hstart : cut <+: c.encode a) (hne : cut ≠ c.encode a) : ∃ cause, c.read cut = .error cause := by
  obtain ⟨rest, hrest⟩ := hstart
  have hnil : rest ≠ [] := by
    rintro rfl
    exact hne ((List.append_nil cut).symm.trans hrest)
  obtain ⟨cause, hcause⟩ := h.cuts cut rest hnil hrest
  exact ⟨cause, by rw [Codec.read, hcause]; rfl⟩

end Codec

/-! ## Packed values -/

/-- The packed value is as long as predicted. It is read from its bytes whatever follows them, and the
bytes cut short anywhere are an error. -/
structure Packer.Delimits {α : Type} (p : Packer α) (a : α) (data : Bytes) : Prop where
  pack_eq : p.pack a = .ok data
  packedLength_eq : p.packedLength a = .ok data.length
  unpack_append : ∀ rest, reportCodec (p.unpack (data ++ rest)) = .ok a
  unpack_cut : ∀ cut, cut <+: data → cut ≠ data →
    ∃ cause, reportCodec (p.unpack cut) = .error (.serialization cause)

theorem Codec.DelimitsAt.packer {α : Type} {c : Codec α} {a : α} (h : c.DelimitsAt a) :
    c.packer.Delimits a (c.encode a) where
  pack_eq := rfl
  packedLength_eq := congrArg Except.ok h.length_eq.symm
  unpack_append rest := by
    show reportCodec (c.read (c.encode a ++ rest)) = .ok a
    rw [Codec.read, h.decode_append]
    rfl
  unpack_cut cut hstart hne := by
    obtain ⟨cause, hcause⟩ := h.read_cut hstart hne
    refine ⟨cause, ?_⟩
    show reportCodec (c.read cut) = .error (.serialization cause)
    rw [hcause]
    rfl

end HaloMesh
