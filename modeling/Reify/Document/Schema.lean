/-
Reading documents by a schema.

A shape turns a document into a value, or refuses it.  The fields of a structure come as a
record that holds no other key, or as a list of their values in order; what is left out is
left to the structure's defaults.  Whether such a list may go on after the last field depends
on the format the document was written in.
-/
import Reify.Document

namespace Reify
namespace Document

abbrev Shape (α : Type) := Document → Option α

/-- What becomes of the items of a list that has more of them than a structure has fields. -/
inductive Surplus
  | refused | ignored
  deriving DecidableEq, Repr

namespace Shape

def text : Shape String
  | .text value => some value
  | _ => none

/-- A value that null leaves out. -/
def optional {α : Type} (shape : Shape α) : Shape (Option α)
  | .null => some none
  | d => (shape d).map some

def list {α : Type} (shape : Shape α) : Shape (List α)
  | .list items => items.mapM shape
  | _ => none

def member {α : Type} (shape : Shape α) (m : String × Document) : Option (String × α) :=
  (shape m.2).map (m.1, ·)

def map {α : Type} (shape : Shape α) : Shape (List (String × α))
  | .record members => members.mapM (member shape)
  | _ => none

def fields (surplus : Surplus) (keys : List String) : Shape (List (String × Document))
  | .record members => if members.all fun m => keys.contains m.1 then some members else none
  | .list items =>
    if surplus = .ignored ∨ items.length ≤ keys.length then some (keys.zip items) else none
  | _ => none

end Shape

/-- One field of a structure, `default` if it is left out. -/
def field {α : Type} (members : List (String × Document)) (key : String) (shape : Shape α)
    (default : α) : Option α :=
  match members.lookup key with
  | some d => shape d
  | none => some default

end Document
end Reify
