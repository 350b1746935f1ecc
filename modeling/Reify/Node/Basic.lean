/-
The reflected form of a function.

A node is one construction: its kind, its own text, and the nodes it is constructed from.
`children` lists the latter in the order of construction.
-/
import Reify.Node.Kind

namespace Reify

/-- Why a function could not be reflected: the class of the error and its message. -/
structure ErrorValue where
  name : String
  message : String
  deriving DecidableEq, Repr

mutual

inductive Node
  /-- The reflected function itself. -/
  | functionDecl (parameters : List Node) (body : Node)
  /-- A function inside a reflected function. -/
  | functionExpr (parameters : List Node) (body : Node)
  | parameterDecl (name : String)
  | blockStmt (statements : List Node)
  | exprStmt (expr : Node)
  | returnStmt (expr : Node)
  | variableStmt (name : String) (initializer : Option Node)
  | ifStmt (condition thenBranch : Node) (elseBranch : Option Node)
  | forOfStmt (target expr body : Node)
  | forInStmt (target expr body : Node)
  | whileStmt (condition block : Node)
  | doStmt (block condition : Node)
  | breakStmt
  | continueStmt
  | tryStmt (tryBlock : Node) (handler finalizer : Option Node)
  | catchClause (target : Option Node) (block : Node)
  | throwStmt (expr : Node)
  | conditionExpr (condition thenValue elseValue : Node)
  | binaryExpr (left : Node) (op : String) (right : Node)
  | unaryExpr (op : String) (expr : Node)
  | callExpr (expr : Node) (args : List Node)
  | newExpr (expr : Node) (args : List Node)
  /-- A value bound to a parameter; no value if the call supplies none. -/
  | argument (expr : Option Node) (name : Option String)
  /-- Access to a property, with the type of the result if it is known. -/
  | propAccessExpr (expr : Node) (name : String) (type : Option String)
  | elementAccessExpr (expr element : Node) (type : Option String)
  | arrayLiteralExpr (items : List Node)
  | objectLiteralExpr (properties : List Node)
  | propAssignExpr (name expr : Node)
  | spreadAssignExpr (expr : Node)
  | spreadElementExpr (expr : Node)
  | computedPropertyNameExpr (expr : Node)
  | templateExpr (parts : List TemplatePart)
  | identifier (name : String)
  /-- A handle to an external resource: its access path and the expression that yields it. -/
  | referenceExpr (path reference : String)
  | typeOfExpr (expr : Node)
  /-- A string literal as written, quotes included. -/
  | stringLiteralExpr (raw : String)
  | numberLiteralExpr (raw : String)
  | booleanLiteralExpr (value : Bool)
  | nullLiteralExpr
  | undefinedLiteralExpr
  /-- A function that could not be reflected. -/
  | err (error : ErrorValue)

inductive TemplatePart
  | literal (text : String)
  | expr (node : Node)

end

namespace TemplatePart

def node? : TemplatePart → Option Node
  | literal _ => none
  | expr node => some node

end TemplatePart

namespace Node

def kind : Node → NodeKind
  | functionDecl .. => .functionDecl
  | functionExpr .. => .functionExpr
  | parameterDecl .. => .parameterDecl
  | blockStmt .. => .blockStmt
  | exprStmt .. => .exprStmt
  | returnStmt .. => .returnStmt
  | variableStmt .. => .variableStmt
  | ifStmt .. => .ifStmt
  | forOfStmt .. => .forOfStmt
  | forInStmt .. => .forInStmt
  | whileStmt .. => .whileStmt
  | doStmt .. => .doStmt
  | breakStmt => .breakStmt
  | continueStmt => .continueStmt
  | tryStmt .. => .tryStmt
  | catchClause .. => .catchClause
  | throwStmt .. => .throwStmt
  | conditionExpr .. => .conditionExpr
  | binaryExpr .. => .binaryExpr
  | unaryExpr .. => .unaryExpr
  | callExpr .. => .callExpr
  | newExpr .. => .newExpr
  | argument .. => .argument
  | propAccessExpr .. => .propAccessExpr
  | elementAccessExpr .. => .elementAccessExpr
  | arrayLiteralExpr .. => .arrayLiteralExpr
  | objectLiteralExpr .. => .objectLiteralExpr
  | propAssignExpr .. => .propAssignExpr
  | spreadAssignExpr .. => .spreadAssignExpr
  | spreadElementExpr .. => .spreadElementExpr
  | computedPropertyNameExpr .. => .computedPropertyNameExpr
  | templateExpr .. => .templateExpr
  | identifier .. => .identifier
  | referenceExpr .. => .referenceExpr
  | typeOfExpr .. => .typeOfExpr
  | stringLiteralExpr .. => .stringLiteralExpr
  | numberLiteralExpr .. => .numberLiteralExpr
  | booleanLiteralExpr .. => .booleanLiteralExpr
  | nullLiteralExpr => .nullLiteralExpr
  | undefinedLiteralExpr => .undefinedLiteralExpr
  | err .. => .err

/-- The nodes a node is constructed from, in the order of construction. -/
def children : Node → List Node
  | functionDecl parameters body => parameters ++ [body]
  | functionExpr parameters body => parameters ++ [body]
  | blockStmt statements => statements
  | exprStmt expr => [expr]
  | returnStmt expr => [expr]
  | variableStmt _ initializer => initializer.toList
  | ifStmt condition thenBranch elseBranch => condition :: thenBranch :: elseBranch.toList
  | forOfStmt target expr body => [target, expr, body]
  | forInStmt target expr body => [target, expr, body]
  | whileStmt condition block => [condition, block]
  | doStmt block condition => [block, condition]
  | tryStmt tryBlock handler finalizer => tryBlock :: (handler.toList ++ finalizer.toList)
  | catchClause target block => target.toList ++ [block]
  | throwStmt expr => [expr]
  | conditionExpr condition thenValue elseValue => [condition, thenValue, elseValue]
  | binaryExpr left _ right => [left, right]
  | unaryExpr _ expr => [expr]
  | callExpr expr args => expr :: args
  | newExpr expr args => expr :: args
  | argument expr _ => expr.toList
  | propAccessExpr expr _ _ => [expr]
  | elementAccessExpr expr element _ => [expr, element]
  | arrayLiteralExpr items => items
  | objectLiteralExpr properties => properties
  | propAssignExpr name expr => [name, expr]
  | spreadAssignExpr expr => [expr]
  | spreadElementExpr expr => [expr]
  | computedPropertyNameExpr expr => [expr]
  | templateExpr parts => parts.filterMap TemplatePart.node?
  | typeOfExpr expr => [expr]
  | parameterDecl _ | breakStmt | continueStmt | identifier _ | referenceExpr _ _
  | stringLiteralExpr _ | numberLiteralExpr _ | booleanLiteralExpr _ | nullLiteralExpr
  | undefinedLiteralExpr | err _ => []

end Node
end Reify
