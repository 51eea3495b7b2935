-- SUMMARY: Binary codecs: fixed-width little-endian numbers, and combinators for lists, options, pairs and results.
import HaloMesh.Codec.Text

/-!
# Codecs

A codec writes a value as bytes, predicts their number, and reads a value off the front of a byte
string. Numbers have a fixed width, and what varies in length or kind stands behind its length or
the index of its kind.
-/

namespace HaloMesh

/-- How values of a type are written as bytes and read back. -/
structure Codec (α : Type) where
  encode : α → Bytes
  /-- The number of bytes that `encode` writes. -/
  size : α → Nat
  /-- Read a value off the front, together with the bytes after it. -/
  decode : Bytes → Except CodecError (α × Bytes)

namespace Codec

/-! ## Numbers -/

def unsigned (width : Nat) : Codec Nat where
  encode n := LittleEndian.encode width n
  size _ := width
  decode bytes :=
    if width ≤ bytes.length then
      .ok (LittleEndian.value (bytes.take width), bytes.drop width)
    else .error .endOfInput

def byte : Codec Nat := unsigned 1

def word32 : Codec Nat := unsigned 4

def word : Codec Nat := unsigned 8

/-- The same bytes, read as another type. -/
def iso {α β : Type} (c : Codec α) (build : α → β) (view : β → α) : Codec β where
  encode b := c.encode (view b)
  size b := c.size (view b)
  decode bytes := do
    let (a, rest) ← c.decode bytes
    return (build a, rest)

/-- A global coordinate, in two's complement. -/
def signed : Codec Int :=
  word.iso (fun n => Int.bmod n UInt64.size) (fun z => (z % UInt64.size).toNat)

/-- A truth value, as the byte 0 or 1. -/
def bool : Codec Bool where
  encode b := byte.encode (if b then 1 else 0)
  size _ := 1
  decode bytes := do
    let (n, rest) ← byte.decode bytes
    match n with
    | 0 => return (false, rest)
    | 1 => return (true, rest)
    | n => throw (.badBool n)

/-! ## Compound values -/

def pair {α β : Type} (c : Codec α) (d : Codec β) : Codec (α × β) where
  encode p := c.encode p.1 ++ d.encode p.2
  size p := c.size p.1 + d.size p.2
  decode bytes := do
    let (a, rest) ← c.decode bytes
    let (b, rest) ← d.decode rest
    return ((a, b), rest)

def decodeMany {α : Type} (c : Codec α) : Nat → Bytes → Except CodecError (List α × Bytes)
  | 0, bytes => .ok ([], bytes)
  | n + 1, bytes => do
    let (a, rest) ← c.decode bytes
    let (as, rest) ← decodeMany c n rest
    return (a :: as, rest)

/-- A list, behind its length. -/
def list {α : Type} (c : Codec α) : Codec (List α) where
  encode as := word.encode as.length ++ as.flatMap c.encode
  size as := 8 + as.foldr (c.size · + ·) 0
  decode bytes := do
    let (n, rest) ← word.decode bytes
    decodeMany c n rest

/-- An optional value, behind a byte that says whether it is there. -/
def option {α : Type} (c : Codec α) : Codec (Option α) where
  encode
    | none => byte.encode 0
    | some a => byte.encode 1 ++ c.encode a
  size
    | none => 1
    | some a => 1 + c.size a
  decode bytes := do
    let (n, rest) ← byte.decode bytes
    match n with
    | 0 => return (none, rest)
    | 1 =>
      let (a, rest) ← c.decode rest
      return (some a, rest)
    | n => throw (.badOption n)

/-- A text, behind the number of its bytes. -/
def text : Codec String where
  encode s := word.encode s.toUTF8.size ++ s.toUTF8.toList
  size s := 8 + s.utf8ByteSize
  decode bytes := do
    let (n, rest) ← word.decode bytes
    if n ≤ rest.length then
      match String.fromUTF8? ⟨(rest.take n).toArray⟩ with
      | some s => return (s, rest.drop n)
      | none => throw (.badText ((textDefect (rest.take n)).getD ⟨0, none⟩))
    else throw .missingText

/-- A success or a failure, behind the index 0 or 1. -/
def result {ε α : Type} (failure : Codec ε) (success : Codec α) : Codec (Except ε α) where
  encode
    | .ok a => word32.encode 0 ++ success.encode a
    | .error e => word32.encode 1 ++ failure.encode e
  size
    | .ok a => 4 + success.size a
    | .error e => 4 + failure.size e
  decode bytes := do
    let (n, rest) ← word32.decode bytes
    match n with
    | 0 =>
      let (a, rest) ← success.decode rest
      return (.ok a, rest)
    | 1 =>
      let (e, rest) ← failure.decode rest
      return (.error e, rest)
    | n => throw (.badResult n)

/-- One of a list of constants, as its index. -/
def constant {α : Type} [DecidableEq α] (alternatives : List α) : Codec α where
  encode a := word32.encode (alternatives.idxOf a)
  size _ := 4
  decode bytes := do
    let (n, rest) ← word32.decode bytes
    match alternatives[n]? with
    | some a => return (a, rest)
    | none => throw (.badVariant n alternatives.length)

/-- The value at the front of a byte string, without what follows. -/
def read {α : Type} (c : Codec α) (bytes : Bytes) : Except CodecError α :=
  (c.decode bytes).map Prod.fst

end Codec

end HaloMesh
