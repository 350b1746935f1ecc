/-
Nodes up to the text of references.

A reference keeps the expression that yields it as it is written.  `unquoted` leaves that text
out of a node and of all nodes in it, so two nodes are `Like` each other if they differ at most
in how references are written.
-/
import Mathlib.Data.List.Forall2
import Mathlib.Data.Option.Basic
import Reify.Node.Basic

namespace Reify
namespace Node

mutual

def unquoted : Node → Node
  | functionDecl parameters body => functionDecl (unquotedAll parameters) (unquoted body)
  | functionExpr parameters body => functionExpr (unquotedAll parameters) (unquoted body)
  | parameterDecl name => parameterDecl name
  | blockStmt statements => blockStmt (unquotedAll statements)
  | exprStmt expr => exprStmt (unquoted expr)
  | returnStmt expr => returnStmt (unquoted expr)
  | variableStmt name initializer => variableStmt name (unquotedOption initializer)
  | ifStmt condition thenBranch elseBranch =>
    ifStmt (unquoted condition) (unquoted thenBranch) (unquotedOption elseBranch)
  | forOfStmt target expr body => forOfStmt (unquoted target) (unquoted expr) (unquoted body)
  | forInStmt target expr body => forInStmt (unquoted target) (unquoted expr) (unquoted body)
  | whileStmt condition block => whileStmt (unquoted condition) (unquoted block)
  | doStmt block condition => doStmt (unquoted block) (unquoted condition)
  | breakStmt => breakStmt
  | continueStmt => continueStmt
  | tryStmt tryBlock handler finalizer =>
    tryStmt (unquoted tryBlock) (unquotedOption handler) (unquotedOption finalizer)
  | catchClause target block => catchClause (unquotedOption target) (unquoted block)
  | throwStmt expr => throwStmt (unquoted expr)
  | conditionExpr condition thenValue elseValue =>
    conditionExpr (unquoted condition) (unquoted thenValue) (unquoted elseValue)
  | binaryExpr left op right => binaryExpr (unquoted left) op (unquoted right)
  | unaryExpr op expr => unaryExpr op (unquoted expr)
  | callExpr expr args => callExpr (unquoted expr) (unquotedAll args)
  | newExpr expr args => newExpr (unquoted expr) (unquotedAll args)
  | argument expr name => argument (unquotedOption expr) name
  | propAccessExpr expr name type => propAccessExpr (unquoted expr) name type
  | elementAccessExpr expr element type =>
    elementAccessExpr (unquoted expr) (unquoted element) type
  | arrayLiteralExpr items => arrayLiteralExpr (unquotedAll items)
  | objectLiteralExpr properties => objectLiteralExpr (unquotedAll properties)
  | propAssignExpr name expr => propAssignExpr (unquoted name) (unquoted expr)
  | spreadAssignExpr expr => spreadAssignExpr (unquoted expr)
  | spreadElementExpr expr => spreadElementExpr (unquoted expr)
  | computedPropertyNameExpr expr => computedPropertyNameExpr (unquoted expr)
  | templateExpr parts => templateExpr (unquotedParts parts)
  | identifier name => identifier name
  | referenceExpr path _ => referenceExpr path ""
  | typeOfExpr expr => typeOfExpr (unquoted expr)
  | stringLiteralExpr raw => stringLiteralExpr raw
  | numberLiteralExpr raw => numberLiteralExpr raw
  | booleanLiteralExpr value => booleanLiteralExpr value
  | nullLiteralExpr => nullLiteralExpr
  | undefinedLiteralExpr => undefinedLiteralExpr
  | err error => err error

def unquotedAll : List Node → List Node
  | [] => []
  | n :: ns => unquoted n :: unquotedAll ns

def unquotedOption : Option Node → Option Node
  | none => none
  | some n => some (unquoted n)

def unquotedParts : List TemplatePart → List TemplatePart
  | [] => []
  | .literal text :: parts => .literal text :: unquotedParts parts
  | .expr n :: parts => .expr (unquoted n) :: unquotedParts parts

end

/-- The nodes differ at most in how references are written. -/
def Like (n m : Node) : Prop := n.unquoted = m.unquoted

theorem referenceExpr_like (path reference reference' : String) :
    (referenceExpr path reference).Like (referenceExpr path reference') := rfl

theorem unquotedParts_append (parts parts' : List TemplatePart) :
    unquotedParts (parts ++ parts') = unquotedParts parts ++ unquotedParts parts' := by
  induction parts with
  | nil => rfl
  | cons part parts ih =>
    cases part <;> rw [List.cons_append, unquotedParts, ih, unquotedParts, List.cons_append]

theorem unquotedAll_eq {ns ms : List Node} (h : List.Forall₂ Like ns ms) :
    unquotedAll ns = unquotedAll ms := by
  induction h with
  | nil => rfl
  | cons head _ ih => exact congrArg₂ List.cons head ih

theorem unquotedOption_eq {n? m? : Option Node} (h : Option.Rel Like n? m?) :
    unquotedOption n? = unquotedOption m? := by
  cases h with
  | none => rfl
  | some h => exact congrArg some h

end Node
end Reify
