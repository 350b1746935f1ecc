/-
The kinds of nodes in the reflected form of a function.
-/

namespace Reify

inductive NodeKind
  | functionDecl | functionExpr | parameterDecl | blockStmt | exprStmt | returnStmt
  | variableStmt | ifStmt | forOfStmt | forInStmt | whileStmt | doStmt | breakStmt | continueStmt
  | tryStmt | catchClause | throwStmt | conditionExpr | binaryExpr | unaryExpr | callExpr
  | newExpr | argument | propAccessExpr | elementAccessExpr | arrayLiteralExpr
  | objectLiteralExpr | propAssignExpr | spreadAssignExpr | spreadElementExpr
  | computedPropertyNameExpr | templateExpr | identifier | referenceExpr | typeOfExpr
  | stringLiteralExpr | numberLiteralExpr | booleanLiteralExpr | nullLiteralExpr
  | undefinedLiteralExpr | err
  deriving DecidableEq, Repr

namespace NodeKind

/-- Every kind, in the order of the catalogue. -/
def all : List NodeKind :=
  [functionDecl, functionExpr, parameterDecl, blockStmt, exprStmt, returnStmt, variableStmt,
    ifStmt, forOfStmt, forInStmt, whileStmt, doStmt, breakStmt, continueStmt, tryStmt, catchClause,
    throwStmt, conditionExpr, binaryExpr, unaryExpr, callExpr, newExpr, argument, propAccessExpr,
    elementAccessExpr, arrayLiteralExpr, objectLiteralExpr, propAssignExpr, spreadAssignExpr,
    spreadElementExpr, computedPropertyNameExpr, templateExpr, identifier, referenceExpr,
    typeOfExpr, stringLiteralExpr, numberLiteralExpr, booleanLiteralExpr, nullLiteralExpr,
    undefinedLiteralExpr, err]

/-- The name of the class whose constructor builds nodes of this kind. -/
def name : NodeKind → String
  | functionDecl => "FunctionDecl"
  | functionExpr => "FunctionExpr"
  | parameterDecl => "ParameterDecl"
  | blockStmt => "BlockStmt"
  | exprStmt => "ExprStmt"
  | returnStmt => "ReturnStmt"
  | variableStmt => "VariableStmt"
  | ifStmt => "IfStmt"
  | forOfStmt => "ForOfStmt"
  | forInStmt => "ForInStmt"
  | whileStmt => "WhileStmt"
  | doStmt => "DoStmt"
  | breakStmt => "BreakStmt"
  | continueStmt => "ContinueStmt"
  | tryStmt => "TryStmt"
  | catchClause => "CatchClause"
  | throwStmt => "ThrowStmt"
  | conditionExpr => "ConditionExpr"
  | binaryExpr => "BinaryExpr"
  | unaryExpr => "UnaryExpr"
  | callExpr => "CallExpr"
  | newExpr => "NewExpr"
  | argument => "Argument"
  | propAccessExpr => "PropAccessExpr"
  | elementAccessExpr => "ElementAccessExpr"
  | arrayLiteralExpr => "ArrayLiteralExpr"
  | objectLiteralExpr => "ObjectLiteralExpr"
  | propAssignExpr => "PropAssignExpr"
  | spreadAssignExpr => "SpreadAssignExpr"
  | spreadElementExpr => "SpreadElementExpr"
  | computedPropertyNameExpr => "ComputedPropertyNameExpr"
  | templateExpr => "TemplateExpr"
  | identifier => "Identifier"
  | referenceExpr => "ReferenceExpr"
  | typeOfExpr => "TypeOfExpr"
  | stringLiteralExpr => "StringLiteralExpr"
  | numberLiteralExpr => "NumberLiteralExpr"
  | booleanLiteralExpr => "BooleanLiteralExpr"
  | nullLiteralExpr => "NullLiteralExpr"
  | undefinedLiteralExpr => "UndefinedLiteralExpr"
  | err => "Err"

def ofName? (name : String) : Option NodeKind := all.find? fun k => k.name == name

theorem ofName?_name (k : NodeKind) : ofName? k.name = some k := by cases k <;> rfl

end NodeKind
end Reify
