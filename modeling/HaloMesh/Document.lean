-- SUMMARY: Self-describing values, with access to their parts and changes along a path.

/-!
# Documents

A document describes itself. What is read from it does not depend on the order of the fields of a
record, and fields that nobody asks for are ignored.
-/

namespace HaloMesh

/-- A self-describing value. -/
inductive Document where
  | null
  | truth (value : Bool)
  | number (value : Int)
  | text (value : String)
  | list (items : List Document)
  | record (fields : List (String × Document))
  deriving Inhabited

namespace Document

/-! ## Parts -/

def field? (name : String) : Document → Option Document
  | .record fields => fields.lookup name
  | _ => none

def item? (i : Nat) : Document → Option Document
  | .list items => items[i]?
  | _ => none

def items? : Document → Option (List Document)
  | .list items => some items
  | _ => none

/-! ## Changes -/

/-- One step on the way to a part of a document. -/
inductive Selector where
  | field (name : String)
  | item (index : Nat)
  deriving DecidableEq, Repr, Inhabited

/-- Put a value in the place of the first field of a name. -/
def replaceField (name : String) (value : Document) :
    List (String × Document) → List (String × Document)
  | [] => []
  | (n, old) :: rest =>
    if n = name then (n, value) :: rest else (n, old) :: replaceField name value rest

/-- Change the part that a step leads to. -/
def changeStep? (change : Document → Option Document) : Selector → Document → Option Document
  | .field name, .record fields => do
    return .record (replaceField name (← change (← fields.lookup name)) fields)
  | .item i, .list items => do
    return .list (items.set i (← change (← items[i]?)))
  | _, _ => none

/-- Change the part that a path leads to. -/
def changeAt? (change : Document → Option Document) : List Selector → Document → Option Document
  | [] => change
  | step :: path => changeStep? (changeAt? change path) step

/-- Put a value in the place of the part that a path leads to. The whole document is not a part. -/
def replaceAt? (d : Document) (path : List Selector) (value : Document) : Option Document :=
  if path.isEmpty then none else changeAt? (fun _ => some value) path d

def removeItem? (i : Nat) : Document → Option Document
  | .list items => if i < items.length then some (.list (items.eraseIdx i)) else none
  | _ => none

/-- Remove the item of a list that a path leads to. -/
def removeAt? (d : Document) (path : List Selector) : Option Document :=
  match path.getLast? with
  | some (.item i) => changeAt? (removeItem? i) path.dropLast d
  | _ => none

/-- A change of a part of a document. -/
inductive Change where
  | replace (path : List Selector) (value : Document)
  | remove (path : List Selector)
  deriving Inhabited

def change? (d : Document) : Change → Option Document
  | .replace path value => d.replaceAt? path value
  | .remove path => d.removeAt? path

/-- Make changes in order, all of which must find their part. -/
def patch? (d : Document) (changes : List Change) : Option Document := changes.foldlM change? d

end Document

end HaloMesh
