/-
Nodes as documents.

A node is a record of its kind and its fields; an absent field is written as null.  Reading
takes a missing field as absent too, and passes over members it does not know.  A node may
also be given as a list, its kind first and then all its fields in order.  The kind is a name;
inside another node it may also be given by its number in the catalogue.
-/
import Reify.Document
import Reify.Node.Basic

namespace Reify

def NodeKind.fields : NodeKind → List String
  | .functionDecl | .functionExpr => ["parameters", "body"]
  | .parameterDecl | .identifier => ["name"]
  | .blockStmt => ["statements"]
  | .exprStmt | .returnStmt | .throwStmt | .spreadAssignExpr | .spreadElementExpr
  | .computedPropertyNameExpr | .typeOfExpr => ["expr"]
  | .variableStmt => ["name", "initializer"]
  | .ifStmt | .conditionExpr => ["when", "then", "otherwise"]
  | .forOfStmt | .forInStmt => ["variable", "expr", "body"]
  | .whileStmt => ["condition", "block"]
  | .doStmt => ["block", "condition"]
  | .tryStmt => ["tryBlock", "catchClause", "finallyBlock"]
  | .catchClause => ["variable", "block"]
  | .binaryExpr => ["left", "op", "right"]
  | .unaryExpr => ["op", "expr"]
  | .callExpr | .newExpr => ["expr", "args"]
  | .argument => ["expr", "name"]
  | .propAccessExpr => ["expr", "name", "type"]
  | .elementAccessExpr => ["expr", "element", "type"]
  | .arrayLiteralExpr => ["items"]
  | .objectLiteralExpr => ["properties"]
  | .propAssignExpr => ["name", "expr"]
  | .templateExpr => ["parts"]
  | .referenceExpr => ["path", "reference"]
  | .stringLiteralExpr | .numberLiteralExpr => ["raw"]
  | .booleanLiteralExpr => ["value"]
  | .err => ["error"]
  | .breakStmt | .continueStmt | .nullLiteralExpr | .undefinedLiteralExpr => []

namespace Node

/-! ## Writing -/

def recordOf (kind : NodeKind) (values : List Document) : Document :=
  .record (("kind", .text kind.name) :: kind.fields.zip values)

def optionalText : Option String → Document
  | none => .null
  | some text => .text text

def errorDocument (e : ErrorValue) : Document :=
  .record [("name", .text e.name), ("message", .text e.message)]

mutual

def toDocument : Node → Document
  | functionDecl parameters body =>
    recordOf .functionDecl [.list (toDocuments parameters), body.toDocument]
  | functionExpr parameters body =>
    recordOf .functionExpr [.list (toDocuments parameters), body.toDocument]
  | parameterDecl name => recordOf .parameterDecl [.text name]
  | blockStmt statements => recordOf .blockStmt [.list (toDocuments statements)]
  | exprStmt expr => recordOf .exprStmt [expr.toDocument]
  | returnStmt expr => recordOf .returnStmt [expr.toDocument]
  | variableStmt name initializer =>
    recordOf .variableStmt [.text name, optionToDocument initializer]
  | ifStmt condition thenBranch elseBranch =>
    recordOf .ifStmt
      [condition.toDocument, thenBranch.toDocument, optionToDocument elseBranch]
  | forOfStmt target expr body =>
    recordOf .forOfStmt [target.toDocument, expr.toDocument, body.toDocument]
  | forInStmt target expr body =>
    recordOf .forInStmt [target.toDocument, expr.toDocument, body.toDocument]
  | whileStmt condition block => recordOf .whileStmt [condition.toDocument, block.toDocument]
  | doStmt block condition => recordOf .doStmt [block.toDocument, condition.toDocument]
  | breakStmt => recordOf .breakStmt []
  | continueStmt => recordOf .continueStmt []
  | tryStmt tryBlock handler finalizer =>
    recordOf .tryStmt
      [tryBlock.toDocument, optionToDocument handler, optionToDocument finalizer]
  | catchClause target block =>
    recordOf .catchClause [optionToDocument target, block.toDocument]
  | throwStmt expr => recordOf .throwStmt [expr.toDocument]
  | conditionExpr condition thenValue elseValue =>
    recordOf .conditionExpr
      [condition.toDocument, thenValue.toDocument, elseValue.toDocument]
  | binaryExpr left op right =>
    recordOf .binaryExpr [left.toDocument, .text op, right.toDocument]
  | unaryExpr op expr => recordOf .unaryExpr [.text op, expr.toDocument]
  | callExpr expr args => recordOf .callExpr [expr.toDocument, .list (toDocuments args)]
  | newExpr expr args => recordOf .newExpr [expr.toDocument, .list (toDocuments args)]
  | argument expr name => recordOf .argument [optionToDocument expr, optionalText name]
  | propAccessExpr expr name type =>
    recordOf .propAccessExpr [expr.toDocument, .text name, optionalText type]
  | elementAccessExpr expr element type =>
    recordOf .elementAccessExpr [expr.toDocument, element.toDocument, optionalText type]
  | arrayLiteralExpr items => recordOf .arrayLiteralExpr [.list (toDocuments items)]
  | objectLiteralExpr properties =>
    recordOf .objectLiteralExpr [.list (toDocuments properties)]
  | propAssignExpr name expr => recordOf .propAssignExpr [name.toDocument, expr.toDocument]
  | spreadAssignExpr expr => recordOf .spreadAssignExpr [expr.toDocument]
  | spreadElementExpr expr => recordOf .spreadElementExpr [expr.toDocument]
  | computedPropertyNameExpr expr => recordOf .computedPropertyNameExpr [expr.toDocument]
  | templateExpr parts => recordOf .templateExpr [.list (partsToDocuments parts)]
  | identifier name => recordOf .identifier [.text name]
  | referenceExpr path reference => recordOf .referenceExpr [.text path, .text reference]
  | typeOfExpr expr => recordOf .typeOfExpr [expr.toDocument]
  | stringLiteralExpr raw => recordOf .stringLiteralExpr [.text raw]
  | numberLiteralExpr raw => recordOf .numberLiteralExpr [.text raw]
  | booleanLiteralExpr value => recordOf .booleanLiteralExpr [.bool value]
  | nullLiteralExpr => recordOf .nullLiteralExpr []
  | undefinedLiteralExpr => recordOf .undefinedLiteralExpr []
  | err error => recordOf .err [errorDocument error]

def toDocuments : List Node → List Document
  | [] => []
  | n :: ns => n.toDocument :: toDocuments ns

def optionToDocument : Option Node → Document
  | none => .null
  | some n => n.toDocument

def partsToDocuments : List TemplatePart → List Document
  | [] => []
  | .literal text :: parts => .text text :: partsToDocuments parts
  | .expr n :: parts => n.toDocument :: partsToDocuments parts

end

theorem toDocuments_eq (ns : List Node) : toDocuments ns = ns.map toDocument := by
  induction ns with
  | nil => rfl
  | cons n ns ih => rw [toDocuments, ih, List.map_cons]

/-! ## Reading -/

/-- What a document can stand for in each place of a node. -/
structure Reading where
  isNull : Bool := false
  flag : Option Bool := none
  text : Option String := none
  /-- A place in the catalogue of kinds. -/
  index : Option Nat := none
  node : Option Node := none
  nodes : Option (List Node) := none
  parts : Option (List TemplatePart) := none
  error : Option ErrorValue := none

namespace Reading

def part (r : Reading) : Option TemplatePart :=
  match r.text with
  | some text => some (.literal text)
  | none => r.node.map .expr

def tag (r : Reading) : Option NodeKind :=
  match r.text with
  | some name => NodeKind.ofName? name
  | none => r.index.bind (NodeKind.all[·]?)

end Reading

abbrev Fields := List (String × Reading)

namespace Fields

def textAt (fs : Fields) (name : String) : Option String := (fs.lookup name).bind (·.text)

def nodeAt (fs : Fields) (name : String) : Option Node := (fs.lookup name).bind (·.node)

def nodesAt (fs : Fields) (name : String) : Option (List Node) := (fs.lookup name).bind (·.nodes)

/-- A field that may be missing or null. -/
def optionalAt {α : Type} (fs : Fields) (name : String) (get : Reading → Option α) :
    Option (Option α) :=
  match fs.lookup name with
  | none => some none
  | some r => if r.isNull then some none else (get r).map some

end Fields

def errorOf (fs : Fields) : Option ErrorValue := do
  some ⟨← fs.textAt "name", ← fs.textAt "message"⟩

def ofFields (kind : NodeKind) (fs : Fields) : Option Node :=
  match kind with
  | .functionDecl => do some (functionDecl (← fs.nodesAt "parameters") (← fs.nodeAt "body"))
  | .functionExpr => do some (functionExpr (← fs.nodesAt "parameters") (← fs.nodeAt "body"))
  | .parameterDecl => do some (parameterDecl (← fs.textAt "name"))
  | .blockStmt => do some (blockStmt (← fs.nodesAt "statements"))
  | .exprStmt => do some (exprStmt (← fs.nodeAt "expr"))
  | .returnStmt => do some (returnStmt (← fs.nodeAt "expr"))
  | .variableStmt => do
    some (variableStmt (← fs.textAt "name") (← fs.optionalAt "initializer" (·.node)))
  | .ifStmt => do
    some (ifStmt (← fs.nodeAt "when") (← fs.nodeAt "then") (← fs.optionalAt "otherwise" (·.node)))
  | .forOfStmt => do
    some (forOfStmt (← fs.nodeAt "variable") (← fs.nodeAt "expr") (← fs.nodeAt "body"))
  | .forInStmt => do
    some (forInStmt (← fs.nodeAt "variable") (← fs.nodeAt "expr") (← fs.nodeAt "body"))
  | .whileStmt => do some (whileStmt (← fs.nodeAt "condition") (← fs.nodeAt "block"))
  | .doStmt => do some (doStmt (← fs.nodeAt "block") (← fs.nodeAt "condition"))
  | .breakStmt => some breakStmt
  | .continueStmt => some continueStmt
  | .tryStmt => do
    some (tryStmt (← fs.nodeAt "tryBlock") (← fs.optionalAt "catchClause" (·.node))
      (← fs.optionalAt "finallyBlock" (·.node)))
  | .catchClause => do
    some (catchClause (← fs.optionalAt "variable" (·.node)) (← fs.nodeAt "block"))
  | .throwStmt => do some (throwStmt (← fs.nodeAt "expr"))
  | .conditionExpr => do
    some (conditionExpr (← fs.nodeAt "when") (← fs.nodeAt "then") (← fs.nodeAt "otherwise"))
  | .binaryExpr => do
    some (binaryExpr (← fs.nodeAt "left") (← fs.textAt "op") (← fs.nodeAt "right"))
  | .unaryExpr => do some (unaryExpr (← fs.textAt "op") (← fs.nodeAt "expr"))
  | .callExpr => do some (callExpr (← fs.nodeAt "expr") (← fs.nodesAt "args"))
  | .newExpr => do some (newExpr (← fs.nodeAt "expr") (← fs.nodesAt "args"))
  | .argument => do
    some (argument (← fs.optionalAt "expr" (·.node)) (← fs.optionalAt "name" (·.text)))
  | .propAccessExpr => do
    some (propAccessExpr (← fs.nodeAt "expr") (← fs.textAt "name")
      (← fs.optionalAt "type" (·.text)))
  | .elementAccessExpr => do
    some (elementAccessExpr (← fs.nodeAt "expr") (← fs.nodeAt "element")
      (← fs.optionalAt "type" (·.text)))
  | .arrayLiteralExpr => do some (arrayLiteralExpr (← fs.nodesAt "items"))
  | .objectLiteralExpr => do some (objectLiteralExpr (← fs.nodesAt "properties"))
  | .propAssignExpr => do some (propAssignExpr (← fs.nodeAt "name") (← fs.nodeAt "expr"))
  | .spreadAssignExpr => do some (spreadAssignExpr (← fs.nodeAt "expr"))
  | .spreadElementExpr => do some (spreadElementExpr (← fs.nodeAt "expr"))
  | .computedPropertyNameExpr => do some (computedPropertyNameExpr (← fs.nodeAt "expr"))
  | .templateExpr => do some (templateExpr (← (fs.lookup "parts").bind (·.parts)))
  | .identifier => do some (identifier (← fs.textAt "name"))
  | .referenceExpr => do
    some (referenceExpr (← fs.textAt "path") (← fs.textAt "reference"))
  | .typeOfExpr => do some (typeOfExpr (← fs.nodeAt "expr"))
  | .stringLiteralExpr => do some (stringLiteralExpr (← fs.textAt "raw"))
  | .numberLiteralExpr => do some (numberLiteralExpr (← fs.textAt "raw"))
  | .booleanLiteralExpr => do some (booleanLiteralExpr (← (fs.lookup "value").bind (·.flag)))
  | .nullLiteralExpr => some nullLiteralExpr
  | .undefinedLiteralExpr => some undefinedLiteralExpr
  | .err => do some (err (← (fs.lookup "error").bind (·.error)))

/-- The fields of a node of kind `kind` given in order, if none is left out or left over. -/
def positional (names : List String) (rs : List Reading) : Option Fields :=
  if rs.length = names.length then some (names.zip rs) else none

def nodeOfList (tag : Reading → Option NodeKind) : List Reading → Option Node
  | [] => none
  | head :: rs => do
    let kind ← tag head
    ofFields kind (← positional kind.fields rs)

def nodeOfRecord (tag : Reading → Option NodeKind) (fs : Fields) : Option Node := do
  ofFields (← (fs.lookup "kind").bind tag) fs

mutual

def Reading.ofDocument : Document → Reading
  | .null => { isNull := true }
  | .bool value => { flag := some value }
  | .number value => { index := if 0 ≤ value then some value.toNat else none }
  | .text value => { text := some value }
  | .list items =>
    let rs := Reading.ofItems items
    { node := nodeOfList Reading.tag rs
      nodes := rs.mapM (·.node)
      parts := rs.mapM (·.part)
      error := (positional ["name", "message"] rs).bind errorOf }
  | .record members =>
    let fs := Reading.ofMembers members
    { node := nodeOfRecord Reading.tag fs
      error := errorOf fs }
  | .scalar _ => {}

def Reading.ofItems : List Document → List Reading
  | [] => []
  | d :: ds => Reading.ofDocument d :: Reading.ofItems ds

def Reading.ofMembers : List (String × Document) → Fields
  | [] => []
  | (name, d) :: ds => (name, Reading.ofDocument d) :: Reading.ofMembers ds

end

theorem Reading.ofItems_eq (ds : List Document) :
    Reading.ofItems ds = ds.map Reading.ofDocument := by
  induction ds with
  | nil => rfl
  | cons d ds ih => rw [Reading.ofItems, ih, List.map_cons]

theorem Reading.lookup_ofMembers (key : String) (ms : List (String × Document)) :
    (Reading.ofMembers ms).lookup key = (ms.lookup key).map Reading.ofDocument := by
  induction ms with
  | nil => rfl
  | cons m ms ih =>
    obtain ⟨name, d⟩ := m
    rw [Reading.ofMembers, List.lookup_cons, List.lookup_cons, ih]
    split <;> rfl

def nameTag (r : Reading) : Option NodeKind := r.text.bind NodeKind.ofName?

def ofDocument? : Document → Option Node
  | .list items => nodeOfList nameTag (Reading.ofItems items)
  | .record members => nodeOfRecord nameTag (Reading.ofMembers members)
  | _ => none

end Node
end Reify
