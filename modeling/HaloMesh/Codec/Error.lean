-- SUMMARY: Why bytes cannot be decoded, or a value cannot be encoded.

namespace HaloMesh

/-- Where bytes stop being UTF-8 text. -/
structure TextDefect where
  /-- The number of leading bytes that are text. -/
  index : Nat
  /-- The length of the ill-formed sequence, or `none` if the input ends inside a sequence. -/
  length : Option Nat
  deriving DecidableEq, Repr, Inhabited

def TextDefect.message : TextDefect → String
  | ⟨index, some length⟩ => s!"invalid utf-8 sequence of {length} bytes from index {index}"
  | ⟨index, none⟩ => s!"incomplete utf-8 byte sequence from index {index}"

/-- Why a value could not be encoded or decoded. -/
inductive CodecError where
  | endOfInput
  | missingText
  | badBool (byte : Nat)
  | badOption (byte : Nat)
  | badText (defect : TextDefect)
  | badVariant (index variants : Nat)
  /-- A variant index that is neither success nor failure. -/
  | badResult (index : Nat)
  /-- A value whose shape only its own text could tell. -/
  | selfDescribing
  | refused (reason : String)
  deriving DecidableEq, Repr, Inhabited

def CodecError.message : CodecError → String
  | .endOfInput => "io error: unexpected end of file"
  | .missingText => "io error: "
  | .badBool byte => s!"invalid u8 while decoding bool, expected 0 or 1, found {byte}"
  | .badOption byte => s!"tag for enum is not valid, found {byte}"
  | .badText defect => "string is not valid utf8: " ++ defect.message
  | .badVariant index variants =>
      s!"invalid value: integer `{index}`, expected variant index 0 <= i < {variants}"
  | .badResult index => s!"invalid value: integer `{index}`, expected `Ok` or `Err`"
  | .selfDescribing => "Bincode does not support the serde::Deserializer::deserialize_any method"
  | .refused reason => reason

end HaloMesh
