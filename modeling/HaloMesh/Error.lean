-- SUMMARY: The errors that mesh operations report, by cause.
import HaloMesh.Codec.Error
import HaloMesh.Field.Key
import HaloMesh.Violation

/-!
# Errors

`MeshError` lists what an operation can report to its caller. Where an error can have several
causes, a type of its own tells them apart, and the wording stays in one place.
-/

namespace HaloMesh

/-! ## Causes -/

/-- Why a coloring input cannot be realized. -/
inductive ColoringDefect where
  /-- The number of axes is zero or more than a face mask can describe. -/
  | dimension (found most : Nat)
  | zeroColors (axis : Nat)
  | tooFewIndices (axis extent colors : Nat)
  | haloTooDeep (axis halo block : Nat)
  | gridMismatch (space : Nat) (grid first : List Nat)
  | noIndexSpaces
  /-- A defect that another rank found, known only by its wording. -/
  | relayed (text : String)
  deriving DecidableEq, Repr, Inhabited

def listText (xs : List Nat) : String :=
  "[" ++ ", ".intercalate (xs.map toString) ++ "]"

def ColoringDefect.message : ColoringDefect → String
  | .dimension found most => s!"dimension {found} outside 1..={most}"
  | .zeroColors axis => s!"axis {axis} has zero colors"
  | .tooFewIndices axis extent colors =>
      s!"axis {axis}: {extent} indices cannot be split over {colors} colors"
  | .haloTooDeep axis halo block =>
      s!"axis {axis}: halo depth {halo} exceeds the smallest block ({block})"
  | .gridMismatch space grid first =>
      s!"index space {space} uses color grid {listText grid}, index space 0 uses {listText first}"
  | .noIndexSpaces => "no index spaces"
  | .relayed text => text

/-- Why the traffic with another rank failed. -/
inductive TrafficError where
  | wrongLength (expected actual : Nat)
  /-- The other rank sent a frame that stands for a payload it could not pack. -/
  | senderFailed
  | badStatus (status : Nat)
  | missingCount (rank : Nat)
  | missingLength
  /-- The root sent a length that stands for a value it could not pack. -/
  | rootFailed (rank : Nat)
  | missingPayload (length : Nat)
  | missingFrame (length rank : Nat)
  /-- An own payload has another length than was announced. -/
  | announcedMismatch (expected actual : Nat)
  | missingGhosts
  /-- A cause known only by its wording. -/
  | other (text : String)
  deriving DecidableEq, Repr, Inhabited

def TrafficError.message : TrafficError → String
  | .wrongLength expected actual => s!"expected {expected} bytes, got {actual}"
  | .senderFailed => "sender failed to pack its payload"
  | .badStatus status => s!"bad frame status {status}"
  | .missingCount rank => s!"failed to receive count from rank {rank}"
  | .missingLength => "missing length prefix"
  | .rootFailed rank => s!"root failed to pack the value for rank {rank}"
  | .missingPayload length => s!"missing {length}-byte payload"
  | .missingFrame length rank => s!"failed to receive {length} bytes from rank {rank}"
  | .announcedMismatch expected actual =>
      s!"announced count mismatch: expected {expected} bytes, got {actual}"
  | .missingGhosts => "ghost payload never arrived"
  | .other text => text

/-- A list of a coloring input that has one entry per axis. -/
inductive AxisList where
  | axisExtents
  | haloDepths
  | boundaryDepths
  | periodic
  | axisColors
  /-- The axes of an index space, compared with those of the first one. -/
  | indexSpaceAxes
  deriving DecidableEq, Repr, Inhabited

def AxisList.name : AxisList → String
  | .axisExtents => "axis_extents"
  | .haloDepths => "halo_depths"
  | .boundaryDepths => "boundary_depths"
  | .periodic => "periodic"
  | .axisColors => "axis_colors"
  | .indexSpaceAxes => "index space axes"

/-! ## Errors -/

/-- What a mesh operation reports to its caller. -/
inductive MeshError where
  | indexSpaceMismatch (expected actual : Nat)
  | axisCountMismatch (what : AxisList) (expected actual : Nat)
  /-- Two colors disagree on the ghost slots that one sends to the other. -/
  | asymmetricIntervals (color peer expected actual : Nat)
  | colorCountMismatch (colors processes : Nat)
  | invalidColoring (defect : ColoringDefect)
  /-- The metadata that the root sent is not what the coloring yields. -/
  | metadataMismatch (color space : Nat)
  | fieldNotFound (key : FieldKey)
  | duplicateFieldKey (key : FieldKey)
  | fieldSpaceMismatch (field expected actual : Nat)
  | fieldTypeSize (field expected actual : Nat)
  /-- A field was read before it was ever written. -/
  | fieldUnallocated (field : Nat)
  | indexSpaceOutOfRange (space count : Nat)
  | axisOutOfRange (axis dimension : Nat)
  | communication (neighbor : Nat) (cause : TrafficError)
  | serialization (cause : CodecError)
  | registryInstalled
  | registryNotInstalled
  | invariant (violation : Violation)
  deriving DecidableEq, Repr, Inhabited

namespace MeshError

def message : MeshError → String
  | .indexSpaceMismatch expected actual =>
      s!"coloring supplies {actual} index spaces, topology declares {expected}"
  | .axisCountMismatch what expected actual =>
      s!"invalid #axes for {what.name} ({actual}), must be: {expected}"
  | .asymmetricIntervals color peer expected actual =>
      s!"color {color} expects {expected} ghost slots from color {peer}, but {peer} would send {actual}"
  | .colorCountMismatch colors processes =>
      s!"coloring has {colors} colors but the process group has {processes} processes"
  | .invalidColoring defect => "invalid coloring: " ++ defect.message
  | .metadataMismatch color space =>
      s!"color {color} metadata for index space {space} disagrees with the root's coloring"
  | .fieldNotFound key => "fid lookup failed for " ++ key.text
  | .duplicateFieldKey key => "field key " ++ key.text ++ " is already registered"
  | .fieldSpaceMismatch field expected actual =>
      s!"field {field} lives on index space {actual}, not {expected}"
  | .fieldTypeSize field expected actual =>
      s!"field {field} has {expected}-byte elements, viewed as {actual}-byte elements"
  | .fieldUnallocated field => s!"field {field} has no storage yet"
  | .indexSpaceOutOfRange space count => s!"index space {space} out of range ({count} declared)"
  | .axisOutOfRange axis dimension => s!"axis {axis} out of range (dimension {dimension})"
  | .communication neighbor cause =>
      s!"communication error with rank {neighbor}: " ++ cause.message
  | .serialization cause => "serialization error: " ++ cause.message
  | .registryInstalled => "the process-wide field registry is already installed"
  | .registryNotInstalled => "the process-wide field registry has not been installed"
  | .invariant violation => "invariant violated: " ++ violation.message

/-- Whether an error means that the topology cannot be built, which ends the whole group. -/
def isConstructionError : MeshError → Bool
  | .indexSpaceMismatch .. | .axisCountMismatch .. | .asymmetricIntervals ..
  | .colorCountMismatch .. | .invalidColoring .. | .metadataMismatch .. => true
  | _ => false

/-- The wording of the underlying cause, for errors that wrap one. -/
def source? : MeshError → Option String
  | .communication _ cause => some cause.message
  | _ => none

end MeshError

end HaloMesh
