-- SUMMARY: Forms: how values of a type are described by documents and read back.
import HaloMesh.Document
import HaloMesh.Hex

/-!
# Forms

A form describes the values of a type by documents and reads them back. Numbers are read only if they
are in the range of their type.
-/

namespace HaloMesh

/-- How values of a type are described and read back. -/
structure Form (α : Type) where
  describe : α → Document
  read? : Document → Option α

namespace Form

/-! ## Simple values -/

def below (bound : Nat) : Form Nat where
  describe n := .number n
  read?
    | .number z => if 0 ≤ z ∧ z < bound then some z.toNat else none
    | _ => none

def size : Form Nat := below UInt64.size

def coordinate : Form Int where
  describe z := .number z
  read?
    | .number z => if -0x8000000000000000 ≤ z ∧ z < 0x8000000000000000 then some z else none
    | _ => none

def truth : Form Bool where
  describe b := .truth b
  read?
    | .truth b => some b
    | _ => none

def text : Form String where
  describe s := .text s
  read?
    | .text s => some s
    | _ => none

def hex : Form Bytes where
  describe bytes := .text (Hex.ofBytes bytes)
  read?
    | .text s => Hex.bytes? s
    | _ => none

/-- A document describes itself. -/
def any : Form Document := ⟨id, some⟩

/-! ## Compound values -/

def list {α : Type} (form : Form α) : Form (List α) where
  describe as := .list (as.map form.describe)
  read?
    | .list items => items.mapM form.read?
    | _ => none

def option {α : Type} (form : Form α) : Form (Option α) where
  describe
    | none => .null
    | some a => form.describe a
  read?
    | .null => some none
    | d => (form.read? d).map some

/-- A success or a failure, as a record with one field. -/
def result {ε α : Type} (failure : Form ε) (success : Form α) : Form (Except ε α) where
  describe
    | .ok a => .record [("Ok", success.describe a)]
    | .error e => .record [("Err", failure.describe e)]
  read?
    | .record [("Ok", value)] => (success.read? value).map .ok
    | .record [("Err", value)] => (failure.read? value).map .error
    | _ => none

/-- The form of a type whose values stand for those of another, some of which may be refused. -/
def filterMap {α β : Type} (form : Form α) (build : α → Option β) (view : β → α) : Form β where
  describe b := form.describe (view b)
  read? d := do build (← form.read? d)

/-- The form of a type whose values stand for those of another. -/
def iso {α β : Type} (form : Form α) (build : α → β) (view : β → α) : Form β :=
  form.filterMap (fun a => some (build a)) view

def word32 : Form UInt32 := (below UInt32.size).iso UInt32.ofNat UInt32.toNat

/-- One of a list of constants, by its name. -/
def named {α : Type} (name : α → String) (alternatives : List α) : Form α :=
  text.filterMap (fun s => alternatives.find? (name · == s)) name

end Form

/-! ## Records -/

/-- How the components of a structure are described by the fields of a record. -/
structure Fields (α : Type) where
  describe : α → List (String × Document)
  read? : Document → Option α

namespace Fields

/-- One field, which must be there. -/
def one {α : Type} (name : String) (form : Form α) : Fields α where
  describe a := [(name, form.describe a)]
  read? d := do form.read? (← d.field? name)

/-- One field, which may be absent or null. -/
def optional {α : Type} (name : String) (form : Form α) : Fields (Option α) where
  describe a := [(name, form.option.describe a)]
  read? d :=
    match d.field? name with
    | none => some none
    | some d => form.option.read? d

/-- The fields of two structures. -/
def and {α β : Type} (first : Fields α) (second : Fields β) : Fields (α × β) where
  describe p := first.describe p.1 ++ second.describe p.2
  read? d := do return (← first.read? d, ← second.read? d)

/-- The fields of a type whose values stand for those of another. -/
def iso {α β : Type} (fields : Fields α) (build : α → β) (view : β → α) : Fields β where
  describe b := fields.describe (view b)
  read? d := (fields.read? d).map build

def form {α : Type} (fields : Fields α) : Form α where
  describe a := .record (fields.describe a)
  read? := fields.read?

end Fields

/-! ## Changes -/

/-- A step is described by the name of a field or the position of an item. -/
def Document.Selector.form : Form Document.Selector where
  describe
    | .field name => .text name
    | .item i => .number i
  read?
    | .text name => some (.field name)
    | d => (Form.size.read? d).map .item

/-- A change is described by its path and either a value or the word that a part is removed. -/
def Document.Change.form : Form Document.Change where
  describe
    | .replace path value =>
      .record [("path", Document.Selector.form.list.describe path), ("value", value)]
    | .remove path =>
      .record [("path", Document.Selector.form.list.describe path), ("remove", .truth true)]
  read? d := do
    let path ← (Fields.one "path" Document.Selector.form.list).read? d
    match ← (Fields.optional "remove" .truth).read? d with
    | some true => return .remove path
    | _ => return .replace path (← d.field? "value")

end HaloMesh
