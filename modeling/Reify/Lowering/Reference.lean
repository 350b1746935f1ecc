/-
References to external resources.

An expression whose type is marked as a handle to a resource is kept as it is written, with
its access path.  The path shows the names and subscripts of a plain access chain and looks
through parentheses and type assertions.
-/
import Reify.Node.Basic
import Reify.Types.Oracle

namespace Reify
namespace Tree

mutual

def accessPath? : Tree → Option String
  | .node info children =>
    let t := Tree.node info children
    match info.kind with
    | .identifier | .shorthandPropertyIdentifier | .propertyIdentifier => some info.text
    | .memberExpression => do
      let object ← (accessPaths (inField "object") children).head?.join
      some (object ++ "." ++ (← t.childByField? "property").text)
    | .subscriptExpression => do
      let object ← (accessPaths (inField "object") children).head?.join
      let index ← t.childByField? "index"
      let element ←
        match index.kind with
        | .stringLiteral | .numberLiteral => some index.text
        | _ => (accessPaths (inField "index") children).head?.join
      some (object ++ "[" ++ element ++ "]")
    | .parenthesizedExpression | .asExpression | .satisfiesExpression | .nonNullExpression =>
      (accessPaths isOperand children).head?.join
    | .typeAssertion => (accessPaths isOperand children).getLast?.join
    | _ => none

def accessPaths (p : Tree → Bool) : List Tree → List (Option String)
  | [] => []
  | t :: ts => if p t then accessPath? t :: accessPaths p ts else accessPaths p ts

end

theorem accessPaths_eq (p : Tree → Bool) (ts : List Tree) :
    accessPaths p ts = (ts.filter p).map accessPath? := by
  induction ts with
  | nil => rfl
  | cons t ts ih =>
    rw [accessPaths, ih, List.filter_cons]
    split <;> rfl

/-- The access path, empty for what is no plain access chain. -/
def referencePath (t : Tree) : String := t.accessPath?.getD ""

end Tree

namespace Oracle

/-- The reference that an expression is, if its type is marked as one. -/
def resolveReference? (o : Oracle) (t : Tree) : Option Node :=
  match (o.typeOf t).bind o.referenceKind? with
  | some _ => some (.referenceExpr t.referencePath t.text)
  | none => none

def typeSnapshot? (o : Oracle) (t : Tree) : Option String := (o.typeOf t).map o.display

end Oracle
end Reify
