-- SUMMARY: How the values of a collective are packed, and the sample values that may refuse it.
import HaloMesh.Codec.Basic
import HaloMesh.Fault

namespace HaloMesh

/-- How values are packed for a message and unpacked from it. -/
structure Packer (α : Type) where
  pack : α → Except CodecError Bytes
  packedLength : α → Except CodecError Nat
  unpack : Bytes → Except CodecError α

/-- The packer of a codec. Bytes after the value are ignored. -/
def Codec.packer {α : Type} (c : Codec α) : Packer α where
  pack a := .ok (c.encode a)
  packedLength a := .ok (c.size a)
  unpack := c.read

def reportCodec {α : Type} (x : Except CodecError α) : Except MeshError α :=
  x.mapError .serialization

/-- A value that an application hands to a collective. -/
inductive Item where
  | text (text : String)
  | numbers (numbers : List Nat)
  /-- A value that refuses to be packed, for a given reason. -/
  | refusing (reason : String)
  deriving DecidableEq, Repr, Inhabited

namespace Item

/-- The alternatives, each by its index. -/
def codec : Codec Item where
  encode
    | .text s => Codec.word32.encode 0 ++ Codec.text.encode s
    | .numbers ns => Codec.word32.encode 1 ++ (Codec.list .word).encode ns
    | .refusing _ => Codec.word32.encode 2
  size
    | .text s => 4 + Codec.text.size s
    | .numbers ns => 4 + (Codec.list .word).size ns
    | .refusing _ => 4
  decode bytes := do
    let (n, rest) ← Codec.word32.decode bytes
    match n with
    | 0 =>
      let (s, rest) ← Codec.text.decode rest
      return (.text s, rest)
    | 1 =>
      let (ns, rest) ← (Codec.list .word).decode rest
      return (.numbers ns, rest)
    | 2 => return (.refusing "unpackable", rest)
    | n => throw (.badVariant n 3)

/-- Items are packed by their codec, apart from those that refuse. -/
def packer : Packer Item where
  pack
    | .refusing reason => .error (.refused reason)
    | item => .ok (codec.encode item)
  packedLength
    | .refusing reason => .error (.refused reason)
    | item => .ok (codec.size item)
  unpack := codec.read

end Item

end HaloMesh
