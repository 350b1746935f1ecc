/-
Construction code.

A node is written as the expression that builds it: `new`, the class of its kind under the
binding of the library, and its parts as arguments.  An absent part is written `undefined`.  A
raw literal is written as it stands, and the expression of a reference as the body of an arrow
function, so that it is evaluated where the code runs.
-/
import Reify.Node.Basic
import Reify.Text.Quoted

namespace Reify

/-- Where emitted code finds the classes of the nodes. -/
structure NodeLibrary where
  /-- The identifier the library is imported as. -/
  binding : String := "$ir"
  /-- The module it is imported from. -/
  specifier : String := "refract/ir"
  deriving DecidableEq, Repr

namespace Node

def separated : List (List Char) → List Char
  | [] => []
  | [item] => item
  | item :: next :: rest => item ++ ',' :: ' ' :: separated (next :: rest)

def bracketed (items : List (List Char)) : List Char := '[' :: (separated items ++ [']'])

def construct (binding : List Char) (kind : NodeKind) (args : List (List Char)) : List Char :=
  "new ".toList ++ binding ++ '.' :: kind.name.toList ++ '(' :: separated args ++ [')']

def emitText (text : String) : List Char := Text.quoteChars text.toList

def absent : List Char := "undefined".toList

def emitOptionalText : Option String → List Char
  | none => absent
  | some text => emitText text

/-- The error that an `err` node stands for, rebuilt. -/
def emitError (e : ErrorValue) : List Char :=
  "Object.assign(new Error(".toList ++ emitText e.message ++ "), \x7b name: ".toList ++
    emitText e.name ++ " \x7d)".toList

mutual

def emitChars (b : List Char) : Node → List Char
  | functionDecl parameters body =>
    construct b .functionDecl [bracketed (emitEach b parameters), emitChars b body]
  | functionExpr parameters body =>
    construct b .functionExpr [bracketed (emitEach b parameters), emitChars b body]
  | parameterDecl name => construct b .parameterDecl [emitText name]
  | blockStmt statements => construct b .blockStmt [bracketed (emitEach b statements)]
  | exprStmt expr => construct b .exprStmt [emitChars b expr]
  | returnStmt expr => construct b .returnStmt [emitChars b expr]
  | variableStmt name initializer =>
    construct b .variableStmt [emitText name, emitOption b initializer]
  | ifStmt condition thenBranch elseBranch =>
    construct b .ifStmt [emitChars b condition, emitChars b thenBranch, emitOption b elseBranch]
  | forOfStmt target expr body =>
    construct b .forOfStmt [emitChars b target, emitChars b expr, emitChars b body]
  | forInStmt target expr body =>
    construct b .forInStmt [emitChars b target, emitChars b expr, emitChars b body]
  | whileStmt condition block => construct b .whileStmt [emitChars b condition, emitChars b block]
  | doStmt block condition => construct b .doStmt [emitChars b block, emitChars b condition]
  | breakStmt => construct b .breakStmt []
  | continueStmt => construct b .continueStmt []
  | tryStmt tryBlock handler finalizer =>
    construct b .tryStmt [emitChars b tryBlock, emitOption b handler, emitOption b finalizer]
  | catchClause target block => construct b .catchClause [emitOption b target, emitChars b block]
  | throwStmt expr => construct b .throwStmt [emitChars b expr]
  | conditionExpr condition thenValue elseValue =>
    construct b .conditionExpr
      [emitChars b condition, emitChars b thenValue, emitChars b elseValue]
  | binaryExpr left op right =>
    construct b .binaryExpr [emitChars b left, emitText op, emitChars b right]
  | unaryExpr op expr => construct b .unaryExpr [emitText op, emitChars b expr]
  | callExpr expr args => construct b .callExpr [emitChars b expr, bracketed (emitEach b args)]
  | newExpr expr args => construct b .newExpr [emitChars b expr, bracketed (emitEach b args)]
  | argument expr name => construct b .argument [emitOption b expr, emitOptionalText name]
  | propAccessExpr expr name type =>
    construct b .propAccessExpr [emitChars b expr, emitText name, emitOptionalText type]
  | elementAccessExpr expr element type =>
    construct b .elementAccessExpr
      [emitChars b expr, emitChars b element, emitOptionalText type]
  | arrayLiteralExpr items => construct b .arrayLiteralExpr [bracketed (emitEach b items)]
  | objectLiteralExpr properties =>
    construct b .objectLiteralExpr [bracketed (emitEach b properties)]
  | propAssignExpr name expr => construct b .propAssignExpr [emitChars b name, emitChars b expr]
  | spreadAssignExpr expr => construct b .spreadAssignExpr [emitChars b expr]
  | spreadElementExpr expr => construct b .spreadElementExpr [emitChars b expr]
  | computedPropertyNameExpr expr => construct b .computedPropertyNameExpr [emitChars b expr]
  | templateExpr parts => construct b .templateExpr [bracketed (emitParts b parts)]
  | identifier name => construct b .identifier [emitText name]
  | referenceExpr path reference =>
    construct b .referenceExpr [emitText path, "() => ".toList ++ reference.toList]
  | typeOfExpr expr => construct b .typeOfExpr [emitChars b expr]
  | stringLiteralExpr raw => construct b .stringLiteralExpr [raw.toList]
  | numberLiteralExpr raw => construct b .numberLiteralExpr [raw.toList]
  | booleanLiteralExpr value =>
    construct b .booleanLiteralExpr [if value then "true".toList else "false".toList]
  | nullLiteralExpr => construct b .nullLiteralExpr []
  | undefinedLiteralExpr => construct b .undefinedLiteralExpr []
  | err error => construct b .err [emitError error]

def emitEach (b : List Char) : List Node → List (List Char)
  | [] => []
  | n :: ns => emitChars b n :: emitEach b ns

def emitOption (b : List Char) : Option Node → List Char
  | none => absent
  | some n => emitChars b n

def emitParts (b : List Char) : List TemplatePart → List (List Char)
  | [] => []
  | .literal text :: parts => emitText text :: emitParts b parts
  | .expr n :: parts => emitChars b n :: emitParts b parts

end

theorem emitEach_eq (b : List Char) (ns : List Node) : emitEach b ns = ns.map (emitChars b) := by
  induction ns with
  | nil => rfl
  | cons n ns ih => rw [emitEach, ih, List.map_cons]

end Node

namespace NodeLibrary

def emit (l : NodeLibrary) (n : Node) : String := String.ofList (n.emitChars l.binding.toList)

def importLine (l : NodeLibrary) : String :=
  "import * as " ++ l.binding ++ " from " ++ Text.quote l.specifier ++ ";"

end NodeLibrary

example : ({} : NodeLibrary).emit (.ifStmt (.booleanLiteralExpr false) .breakStmt none) =
    "new $ir.IfStmt(new $ir.BooleanLiteralExpr(false), new $ir.BreakStmt(), undefined)" := rfl

end Reify
