-- SUMMARY: Building a topology across a group: the root colors the mesh, every rank checks and binds its color.
import HaloMesh.Codec.Records
import HaloMesh.Collective.OneToAll
import HaloMesh.CopyPlan.Refresh
import HaloMesh.Topology.Basic

/-!
# Construction

Rank 0 colors the mesh and sends every rank the coloring input and the metadata of its color, or the
wording of the error that keeps it from doing so. Every rank derives its metadata again and compares,
and then builds one copy plan per index space, checked against the plans of the other ranks.
-/

namespace HaloMesh

namespace Topology

/-! ## Dissemination -/

/-- What the root sends a rank: a coloring input and the metadata of its color, or why there is no
coloring. -/
abbrev Dissemination := Except String (ColoringSpec × ColorMeta)

def disseminationCodec : Codec Dissemination :=
  .result .text (ColoringSpec.codec.pair ColorMeta.codec)

/-- The coloring of a mesh for a group of `size` ranks, one color per rank. -/
def colorFor (mesh : Specialization) (size : Nat) : Comm Coloring := do
  let coloring ← Coloring.derive (← mesh.color size)
  if coloring.colors ≠ size then Comm.report (.colorCountMismatch coloring.colors size)
  return coloring

/-- The coloring that a rank has to give away: rank 0 has one, or the error that it ran into. -/
def rootColoring (mesh : Specialization) (me : Member) :
    Comm (Option (Except MeshError Coloring)) := do
  if me.rank = 0 then
    match ← liftM (colorFor mesh me.size).attempt with
    | .ok coloring => return some (.ok coloring)
    | .error (.reported error) => return some (.error error)
    | .error (.fault cause) => throw (.fault cause)
  else return none

def disseminationFor (built : Option (Except MeshError Coloring)) (rank _size : Nat) :
    Except Fault Dissemination :=
  match built with
  | some (.ok coloring) => do return .ok (coloring.spec, ← coloring.metadata rank)
  | some (.error error) => .ok (.error error.message)
  | none => .ok (.error "metadata requested from a non-root rank")

/-- The coloring input and the metadata of the own color, as the root sends them. -/
def receiveMetadata (mesh : Specialization) (me : Member) : Comm (ColoringSpec × ColorMeta) := do
  let built ← rootColoring mesh me
  let received ← oneToAll disseminationCodec.packer me OneToAll.defaultTag (disseminationFor built)
  match built, received with
  | some (.error error), _ => Comm.report error
  | _, .error text => Comm.report (.invalidColoring (.relayed text))
  | _, .ok found => return found

/-! ## Binding a color -/

/-- The first index space on which two lists of parts disagree. -/
def firstDifference? (derived sent : List IndexColoring) : Option Nat :=
  (List.range (max derived.length sent.length)).find? fun s => derived[s]? != sent[s]?

/-- Check the metadata that the root sent against the metadata that the coloring yields. -/
def checkMetadata (rank : Nat) (derived sent : ColorMeta) : Except MeshError Unit :=
  match firstDifference? derived.spaces sent.spaces with
  | some space => .error (.metadataMismatch rank space)
  | none => if sent.color = rank then .ok () else .error (.metadataMismatch rank 0)

/-- Bind the own color of a coloring that every rank holds. All ranks of the group take part. -/
def ofColoring (me : Member) (coloring : Coloring) (indexSpaces : Nat) : Comm Topology := do
  if coloring.colors ≠ me.size then
    Comm.report (.colorCountMismatch coloring.colors me.size)
  let partitions ← coloring.partitions indexSpaces
  let plans ← (List.range indexSpaces).mapM (CopyPlan.establish me coloring)
  Program.record .debug
    s!"rank {me.rank} bound color {me.rank} of {coloring.colors} ({indexSpaces} index spaces)"
  let metadata ← coloring.metadata me.rank
  let regions ← liftM (partitions.mapM (·.region me.rank))
  return { member := me, spec := coloring.spec, metadata, partitions, plans, regions }

/-- Color a mesh over the group and bind the own color. All ranks of the group take part. -/
def new (me : Member) (mesh : Specialization) : Comm Topology := do
  let (spec, sent) ← receiveMetadata mesh me
  let coloring ← Coloring.derive spec
  let derived ← coloring.metadata me.rank
  checkMetadata me.rank derived sent
  ofColoring me coloring mesh.indexSpaces

end Topology

/-! ## Giving up -/

/-- The code with which a rank ends its group. -/
def abortCode : Nat := 1

/-- Run a program, and end the whole group if it reports an error. -/
def orAbort {α : Type} (me : Member) (x : Comm α) : Comm α := do
  match ← liftM x.attempt with
  | .ok a => return a
  | .error (.fault cause) => throw (.fault cause)
  | .error (.reported error) =>
    let kind := if error.isConstructionError then "construction " else ""
    Program.record .error
      s!"rank {me.rank} of {me.size}: fatal {kind}error: {error.message}"
    throw (.fault (.aborted me.rank abortCode))

end HaloMesh
