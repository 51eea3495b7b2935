-- SUMMARY: An ordered list of access modes held in one 32-bit number behind a sentinel bit.
import HaloMesh.Fault
import HaloMesh.Privilege

/-!
# Privilege packs

A pack lists the modes of consecutive accesses, earliest first, in one number. Each mode takes two
bits, and a sentinel bit stands above the first one, so the number of modes can be read off the
position of the highest bit. The pack of `ro, wo` is `0b1_01_10`. The predicates on a pack decide
alone whether ghosts must be refreshed before a task.
-/

namespace HaloMesh

/-- A list of modes in one 32-bit number. -/
structure Pack where
  raw : UInt32
  deriving DecidableEq, Repr, Inhabited

namespace Pack

abbrev capacity : Nat := 15

/-! ## Building packs -/

/-- The pack of no modes, which is the sentinel alone. -/
def empty : Pack := ⟨1⟩

def push (p : Pack) (m : Privilege) : Pack :=
  ⟨UInt32.ofNat (4 * p.raw.toNat + m.code)⟩

/-- The pack of a list of modes, earliest access first. -/
def ofModes (modes : List Privilege) : Except Fault Pack :=
  if modes.length ≤ capacity then .ok (modes.foldl push empty) else .error .tooManyModes

def ofMode (m : Privilege) : Pack := empty.push m

def replicate (m : Privilege) (n : Nat) : Except Fault Pack :=
  ofModes (List.replicate n m)

/-! ## Reading packs -/

/-- The number of modes: half the position of the highest bit. -/
def count (p : Pack) : Nat := p.raw.toNat.log2 / 2

/-- The mode at a position below `count`. -/
def modeAt (p : Pack) (i : Nat) : Privilege :=
  .ofCode (p.raw.toNat / Nat.pow 4 (p.count - 1 - i))

/-- The mode at a position, which faults past the last mode. -/
def get (p : Pack) (i : Nat) : Except Fault Privilege :=
  if i < p.count then .ok (p.modeAt i) else .error .modeOutOfRange

def modes (p : Pack) : List Privilege := (List.range p.count).map p.modeAt

/-- Whether one of the first `n` modes is of a kind. The last of them is looked at first. -/
def anyBelow (p : Pack) (kind : Privilege → Bool) : Nat → Bool
  | 0 => false
  | n + 1 => if kind (p.modeAt n) then true else p.anyBelow kind n

/-- Whether some mode reads data that were there before. -/
def allowsRead (p : Pack) : Bool := p.anyBelow Privilege.reads p.count

def allowsWrite (p : Pack) : Bool := p.anyBelow Privilege.writes p.count

/-- Whether the first `n` modes are `wo` or `na`, and one of them is `wo` unless one of the later modes
was. -/
def discardsBelow (p : Pack) : Nat → Bool → Bool
  | 0, writes => writes
  | n + 1, writes =>
    match p.modeAt n with
    | .wo => p.discardsBelow n true
    | .na => p.discardsBelow n writes
    | .ro | .rw => false

/-- Whether the accesses overwrite the data before anything reads them. -/
def discards (p : Pack) : Bool := p.discardsBelow p.count false

/-- One mode that stands for the whole pack. -/
def merge (p : Pack) : Privilege :=
  if p.discards then .wo
  else if p.allowsWrite then .rw
  else if p.allowsRead then .ro
  else .na

/-- Whether ghosts must be refreshed before a task with this pack. -/
def shouldRefresh (p : Pack) : Bool :=
  p.allowsRead || (p.allowsWrite && !p.discards)

/-- The modes of one pack followed by those of another. The sentinel of the second pack is dropped
and its modes are moved in below those of the first. -/
def concat (p q : Pack) : Except Fault Pack :=
  if p.count + q.count ≤ capacity then
    .ok ⟨UInt32.ofNat (p.raw.toNat * Nat.pow 4 q.count + q.raw.toNat % Nat.pow 4 q.count)⟩
  else .error .tooManyModes

/-! ## Text -/

/-- The names of the modes between angle brackets. -/
def text (p : Pack) : String :=
  "<" ++ ", ".intercalate (p.modes.map Privilege.name) ++ ">"

def debugText (p : Pack) : String :=
  "[" ++ ", ".intercalate (p.modes.map Privilege.label) ++ "]"

end Pack

end HaloMesh
