/-
Concrete trees, as the grammar yields them.

The grammar recovers from syntax errors: an error node covers text it cannot place, and a
missing node stands for a token it had to suppose.  `hasError` marks the nodes at or above
either.  Which grammar runs is decided by the dialect.  The grammars themselves are not part of
this library, so a grammar is any function from texts to trees.
-/
import Reify.Path
import Reify.Tree.Basic

namespace Reify

structure Concrete.Info where
  /-- The grammar's name for the node; for a token, the token. -/
  name : String
  field : Option String
  named : Bool
  missing : Bool
  error : Bool
  hasError : Bool
  start : Nat
  stop : Nat
  deriving DecidableEq, Repr

inductive Concrete
  | node (info : Concrete.Info) (children : List Concrete)

namespace Concrete

def info : Concrete → Info
  | node info _ => info

def children : Concrete → List Concrete
  | node _ children => children

/-- The text between two offsets, empty where they cut no text. -/
def textAt (source : List Char) (s : Span) : String :=
  match Text.slice? source s.start.toNat s.stop.toNat with
  | some cs => String.ofList cs
  | none => ""

def Info.toTree (source : List Char) (field : Option String) (i : Info) : Tree.Info :=
  { kind := if i.named then .ofGrammar i.name else .unknown i.name
    field := field
    named := i.named
    span := .ofRange i.start i.stop
    text := textAt source (.ofRange i.start i.stop) }

mutual

def toTreeIn (source : List Char) (field : Option String) : Concrete → Tree
  | node info children => .node (info.toTree source field) (toTrees source children)

def toTrees (source : List Char) : List Concrete → List Tree
  | [] => []
  | .node info children :: rest =>
    toTreeIn source info.field (.node info children) :: toTrees source rest

end

theorem toTrees_eq (source : List Char) (cs : List Concrete) :
    toTrees source cs = cs.map fun c => toTreeIn source c.info.field c := by
  induction cs with
  | nil => rfl
  | cons c cs ih =>
    obtain ⟨info, children⟩ := c
    rw [toTrees, ih, List.map_cons]
    rfl

/-- The syntax tree of a concrete tree over `source`; its root fills no field. -/
def toTree (source : String) (c : Concrete) : Tree := toTreeIn source.toList none c

end Concrete

inductive Dialect
  | plain
  /-- With markup elements among the expressions. -/
  | markup
  deriving DecidableEq, Repr

namespace Dialect

def ofPath (p : Path) : Dialect := if p.extension? = some "tsx" then markup else plain

def name : Dialect → String
  | plain => "typescript"
  | markup => "tsx"

def extensions : Dialect → List String
  | plain => ["ts", "mts", "cts"]
  | markup => ["tsx"]

end Dialect

/-- A grammar reads a source unit, or says why it could not run. -/
abbrev Grammar := Dialect → String → Except String Concrete

end Reify
