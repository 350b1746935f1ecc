/-
Syntax trees.

A tree is uniform: every node has a kind, the grammar field it fills in its parent, a span and
the text it covers, whatever its shape.  Rules pick children by field or in order.  Anonymous
tokens are children too, and comments may stand anywhere, so the rules that read children in
order go through `namedChildren`, which passes over both.
-/
import Reify.Span
import Reify.Tree.Kind

namespace Reify

/-- What a node is, its children aside. -/
structure Tree.Info where
  kind : Tree.Kind
  /-- The grammar field the node fills in its parent. -/
  field : Option String
  /-- Whether the node is more than an anonymous token. -/
  named : Bool
  span : Span
  text : String
  deriving DecidableEq, Repr

inductive Tree
  | node (info : Tree.Info) (children : List Tree)

namespace Tree

def info : Tree → Info
  | node info _ => info

def children : Tree → List Tree
  | node _ children => children

def kind (t : Tree) : Kind := t.info.kind

def field (t : Tree) : Option String := t.info.field

def named (t : Tree) : Bool := t.info.named

def span (t : Tree) : Span := t.info.span

def text (t : Tree) : String := t.info.text

/-- Whether the node fills the grammar field `name` in its parent. -/
def inField (name : String) (t : Tree) : Bool := t.field == some name

/-- Whether the node counts among its parent's named children. -/
def isOperand (t : Tree) : Bool := t.named && t.kind != .comment

/-- The first child in a grammar field. -/
def childByField? (t : Tree) (name : String) : Option Tree := t.children.find? (inField name)

/-- The named children, comments left out. -/
def namedChildren (t : Tree) : List Tree := t.children.filter isOperand

def firstNamedChild? (t : Tree) : Option Tree := t.namedChildren.head?

def lastNamedChild? (t : Tree) : Option Tree := t.namedChildren.getLast?

/-- Whether a child is an anonymous token with exactly this text. -/
def hasToken (t : Tree) (token : String) : Bool :=
  t.children.any fun c => !c.named && c.text == token

/-- Whether the node is a function of any shape, with or without a body. -/
def isFunctionLike (t : Tree) : Bool :=
  match t.kind with
  | .arrowFunction | .functionExpression | .functionDeclaration | .functionSignature
  | .generatorFunction | .generatorFunctionDeclaration => true
  | _ => false

def isInvocation (t : Tree) : Bool :=
  match t.kind with
  | .callExpression | .newExpression => true
  | _ => false

/-- The argument list of a call or construction.  A construction may lack it, and a tagged
template has a template in its place. -/
def argumentList? (t : Tree) : Option Tree :=
  if t.isInvocation then
    match t.childByField? "arguments" with
    | some list => if list.kind = .arguments then some list else none
    | none => none
  else none

def callArguments (t : Tree) : List Tree :=
  match t.argumentList? with
  | some list => list.namedChildren
  | none => []

def Kind.calleeField? : Kind → Option String
  | .callExpression => some "function"
  | .newExpression => some "constructor"
  | _ => none

/-- What a call calls or a construction constructs. -/
def callee? (t : Tree) : Option Tree := t.kind.calleeField?.bind t.childByField?

mutual

def find? (p : Tree → Bool) : Tree → Option Tree
  | node info children =>
    if p (node info children) then some (node info children) else findIn? p children

def findIn? (p : Tree → Bool) : List Tree → Option Tree
  | [] => none
  | t :: ts =>
    match find? p t with
    | some found => some found
    | none => findIn? p ts

end

theorem findIn?_eq (p : Tree → Bool) (ts : List Tree) : findIn? p ts = ts.findSome? (find? p) := by
  induction ts with
  | nil => rfl
  | cons t ts ih =>
    rw [findIn?, ih, List.findSome?_cons]
    cases find? p t <;> rfl

end Tree
end Reify
