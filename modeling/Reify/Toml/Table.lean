/-
Tables of TOML under construction.

A table is stated by its header, implied by the header of a table inside it, or opened by a
dotted key.  A header may state an implied table once; it then stands where its own header
stands.  Dotted keys add only to tables that dotted keys opened.
-/
import Reify.Toml.Value

namespace Reify
namespace Toml

mutual

inductive Item
  | value (d : Document)
  | table (t : Table)
  /-- An array of tables, in order; headers add to the last. -/
  | tables (ts : List Table)

inductive Table
  | mk (implied dotted : Bool) (members : List (String × Item))

end

namespace Table

def implied : Table → Bool
  | mk implied _ _ => implied

def dotted : Table → Bool
  | mk _ dotted _ => dotted

def members : Table → List (String × Item)
  | mk _ _ members => members

def empty : Table := mk false false []

def withMembers (t : Table) (members : List (String × Item)) : Table :=
  mk t.implied t.dotted members

def push (t : Table) (key : String) (item : Item) : Table :=
  t.withMembers (t.members ++ [(key, item)])

/-- Changes the table at a path, opening the tables that are missing on the way. -/
def update (byDots : Bool) (change : Table → Option Table) : List String → Table → Option Table
  | [], t => change t
  | key :: path, t =>
    match t.members.lookup key with
    | none => do some (t.push key (.table (← update byDots change path (mk true byDots []))))
    | some (.value _) => none
    | some (.tables ts) => do
      let last ← update byDots change path (← ts.getLast?)
      some (t.withMembers (replaceAt key (.tables (ts.dropLast ++ [last])) t.members))
    | some (.table below) =>
      if byDots && !below.implied then none
      else do
        let below ← update byDots change path below
        some (t.withMembers (replaceAt key (.table below) t.members))

/-- Adds the value of a key whose dotted part is `path`. -/
def assign (t : Table) (path : List String) (key : String) (value : Document) : Option Table :=
  t.update true
    (fun below =>
      if below.dotted == path.isEmpty then none
      else if (below.members.lookup key).isSome then none
      else some (below.push key (.value value)))
    path

/-- The last part of a key, and the parts before it. -/
def splitKey? (key : List String) : Option (List String × String) := do
  some (key.dropLast, ← key.getLast?)

def assignAll (t : Table) (entries : List (List String × Document)) : Option Table :=
  entries.foldlM
    (fun t (key, value) => do
      let (path, last) ← splitKey? key
      t.assign path last value)
    t

/-- The table that a header for `key` states: an implied one, or a new one.  Also the members
without it. -/
def reopen? (key : String) (t : Table) : Option (Table × Table) :=
  match t.members.lookup key with
  | none => some (empty, t)
  | some (.table below) =>
    if below.implied && !below.dotted then
      some (mk false false below.members,
        t.withMembers (t.members.filter fun (k, _) => k != key))
    else none
  | some _ => none

def state (root : Table) (header : List String) (entries : List (List String × Document)) :
    Option Table := do
  let (path, key) ← splitKey? header
  root.update false
    (fun parent => do
      let (table, parent) ← reopen? key parent
      some (parent.push key (.table (← table.assignAll entries))))
    path

/-- Adds a table with its entries to an array of tables. -/
def append (root : Table) (header : List String) (entries : List (List String × Document)) :
    Option Table := do
  let (path, key) ← splitKey? header
  let table ← empty.assignAll entries
  root.update false
    (fun parent =>
      match parent.members.lookup key with
      | none => some (parent.push key (.tables [table]))
      | some (.tables ts) =>
        some (parent.withMembers (replaceAt key (.tables (ts ++ [table])) parent.members))
      | some _ => none)
    path

end Table

mutual

def Item.toDocument : Item → Document
  | .value d => d
  | .table t => t.toDocument
  | .tables ts => .list (Table.toDocuments ts)

def Table.toDocument : Table → Document
  | .mk _ _ members => .record (Item.toMembers members)

def Table.toDocuments : List Table → List Document
  | [] => []
  | t :: ts => t.toDocument :: Table.toDocuments ts

def Item.toMembers : List (String × Item) → List (String × Document)
  | [] => []
  | (key, item) :: rest => (key, item.toDocument) :: Item.toMembers rest

end

theorem Item.toMembers_eq (members : List (String × Item)) :
    Item.toMembers members = members.map fun m => (m.1, m.2.toDocument) := by
  induction members with
  | nil => rfl
  | cons m members ih => rw [Item.toMembers, ih, List.map_cons]

theorem Table.toDocuments_eq (ts : List Table) :
    Table.toDocuments ts = ts.map Table.toDocument := by
  induction ts with
  | nil => rfl
  | cons t ts ih => rw [Table.toDocuments, ih, List.map_cons]

end Toml
end Reify
