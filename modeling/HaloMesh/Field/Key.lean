-- SUMMARY: Field keys: a 64-bit hash of a field's namespace, name and version.
import HaloMesh.Hex

/-!
# Field keys

A field is identified across a group by a hash of `(namespace, name, version)`, which every rank
computes alike because the seeds are fixed.
-/

namespace HaloMesh

/-- The hash that identifies a field. -/
structure FieldKey where
  raw : UInt64
  deriving DecidableEq, Repr, Inhabited

namespace FieldKey

/-! ## Folded multiplication -/

/-- The exclusive or of the two halves of a 128-bit product. -/
def fold (a b : UInt64) : UInt64 :=
  let product := a.toNat * b.toNat
  UInt64.ofNat product ^^^ UInt64.ofNat (product / UInt64.size)

/-- Rotate a word to the left by `k` bits, taken modulo 64. -/
def rotate (x : UInt64) (k : Nat) : UInt64 :=
  let k := k % 64
  UInt64.ofNat (x.toNat <<< k) ||| UInt64.ofNat (x.toNat >>> (64 - k))

def multiplier : UInt64 := 6364136223846793005

/-- Added to the state before each mixing of bytes. -/
def pad : UInt64 := 0x61174b6ebd731ba4

def seed : UInt64 := 0xad4dece137997f28

/-- Combined with the low word of a mixed pair. -/
def lowKey : UInt64 := 0x64a51195e0e3610d

/-- Combined with the high word of a mixed pair. -/
def highKey : UInt64 := 0x37aa2f2d5909659e

/-! ## Absorbing data -/

def absorbPair (state low high : UInt64) : UInt64 :=
  rotate ((state + pad) ^^^ fold (low ^^^ lowKey) (high ^^^ highKey)) 23

def absorbWord (state word : UInt64) : UInt64 :=
  fold (word ^^^ state) multiplier

def word (bytes : Bytes) : UInt64 := UInt64.ofNat (LittleEndian.value bytes)

/-- Absorb the leading blocks of 16 bytes for as long as more than 16 bytes are left. -/
def absorbBlocks (state : UInt64) (bytes : Bytes) : UInt64 :=
  if bytes.length > 16 then
    absorbBlocks (absorbPair state (word (bytes.take 8)) (word ((bytes.drop 8).take 8)))
      (bytes.drop 16)
  else state
termination_by bytes.length
decreasing_by simp; omega

def lastBytes (bytes : Bytes) (n : Nat) : Bytes := bytes.drop (bytes.length - n)

/-- Absorb a byte string. Its length comes first, so that strings with a common start differ. Up to
16 bytes are read as two words that may overlap; a longer string absorbs its last 16 bytes and then
its leading blocks. -/
def absorbBytes (state : UInt64) (bytes : Bytes) : UInt64 :=
  let n := bytes.length
  let state := (state + UInt64.ofNat n) * multiplier
  if n > 16 then
    let tail := lastBytes bytes 16
    absorbBlocks (absorbPair state (word (tail.take 8)) (word (tail.drop 8))) bytes
  else if n > 8 then
    absorbPair state (word (bytes.take 8)) (word (lastBytes bytes 8))
  else if n > 3 then
    absorbPair state (word (bytes.take 4)) (word (lastBytes bytes 4))
  else if n > 1 then
    absorbPair state (word (bytes.take 2)) (word (lastBytes bytes 1))
  else
    absorbPair state (word bytes) (word bytes)

/-- Absorb a text and a byte that ends it. -/
def absorbText (state : UInt64) (text : String) : UInt64 :=
  absorbWord (absorbBytes state text.toUTF8.toList) 0xff

def ofName (space name : String) (version : UInt32) : FieldKey :=
  let state := absorbWord (absorbText (absorbText seed space) name) version.toUInt64
  ⟨rotate (fold state pad) (state.toNat % 64)⟩

/-! ## Text -/

/-- A key is written as 16 hexadecimal digits. -/
def text (key : FieldKey) : String := "0x" ++ Hex.ofNumber 16 key.raw.toNat

end FieldKey

end HaloMesh
