/-
Nodes as a kind and the values of its fields.

Every kind has its fields in a fixed order, and each field a type (`NodeKind.types`).  A node is
determined by its kind and the values of its fields (`ofValues_values`).  Construction code and
documents are written value by value (`emitChars_eq`, `toDocument_eq`), so what holds of all
nodes is proved for each type of field and not for each kind, by induction on the nodes
(`Node.induct`).
-/
import Mathlib.Algebra.Order.BigOperators.Group.List
import Mathlib.Algebra.Order.Ring.Nat
import Reify.Node.Emit
import Reify.Node.Serialized
import Reify.Node.Traversal

namespace Reify

inductive FieldType
  | node | nodes | optionalNode | text | optionalText
  /-- The parts of a template. -/
  | parts
  | flag
  /-- The raw text of a string literal. -/
  | string
  /-- The raw text of a number. -/
  | number
  /-- An expression that is kept as written. -/
  | thunk
  | error
  deriving DecidableEq, Repr

def NodeKind.types : NodeKind → List FieldType
  | .functionDecl | .functionExpr => [.nodes, .node]
  | .parameterDecl | .identifier => [.text]
  | .blockStmt | .arrayLiteralExpr | .objectLiteralExpr => [.nodes]
  | .exprStmt | .returnStmt | .throwStmt | .spreadAssignExpr | .spreadElementExpr
  | .computedPropertyNameExpr | .typeOfExpr => [.node]
  | .variableStmt => [.text, .optionalNode]
  | .ifStmt => [.node, .node, .optionalNode]
  | .forOfStmt | .forInStmt | .conditionExpr => [.node, .node, .node]
  | .whileStmt | .doStmt | .propAssignExpr => [.node, .node]
  | .tryStmt => [.node, .optionalNode, .optionalNode]
  | .catchClause => [.optionalNode, .node]
  | .binaryExpr => [.node, .text, .node]
  | .unaryExpr => [.text, .node]
  | .callExpr | .newExpr => [.node, .nodes]
  | .argument => [.optionalNode, .optionalText]
  | .propAccessExpr => [.node, .text, .optionalText]
  | .elementAccessExpr => [.node, .node, .optionalText]
  | .templateExpr => [.parts]
  | .referenceExpr => [.text, .thunk]
  | .stringLiteralExpr => [.string]
  | .numberLiteralExpr => [.number]
  | .booleanLiteralExpr => [.flag]
  | .err => [.error]
  | .breakStmt | .continueStmt | .nullLiteralExpr | .undefinedLiteralExpr => []

namespace Node

inductive Value
  | node (n : Node)
  | nodes (ns : List Node)
  | optionalNode (n? : Option Node)
  | text (s : String)
  | optionalText (s? : Option String)
  | parts (ps : List TemplatePart)
  | flag (b : Bool)
  | string (raw : String)
  | number (raw : String)
  | thunk (expr : String)
  | error (e : ErrorValue)

namespace Value

def type : Value → FieldType
  | node _ => .node
  | nodes _ => .nodes
  | optionalNode _ => .optionalNode
  | text _ => .text
  | optionalText _ => .optionalText
  | parts _ => .parts
  | flag _ => .flag
  | string _ => .string
  | number _ => .number
  | thunk _ => .thunk
  | error _ => .error

def children : Value → List Node
  | node n => [n]
  | nodes ns => ns
  | optionalNode n? => n?.toList
  | parts ps => ps.filterMap TemplatePart.node?
  | text _ | optionalText _ | flag _ | string _ | number _ | thunk _ | error _ => []

def emit (b : List Char) : Value → List Char
  | node n => emitChars b n
  | nodes ns => bracketed (emitEach b ns)
  | optionalNode n? => emitOption b n?
  | text s => emitText s
  | optionalText s? => emitOptionalText s?
  | parts ps => bracketed (emitParts b ps)
  | flag value => if value then "true".toList else "false".toList
  | string raw => raw.toList
  | number raw => raw.toList
  | thunk expr => "() => ".toList ++ expr.toList
  | error e => emitError e

def toDocument : Value → Document
  | node n => n.toDocument
  | nodes ns => .list (toDocuments ns)
  | optionalNode n? => optionToDocument n?
  | text s => .text s
  | optionalText s? => Node.optionalText s?
  | parts ps => .list (partsToDocuments ps)
  | flag value => .bool value
  | string raw => .text raw
  | number raw => .text raw
  | thunk expr => .text expr
  | error e => errorDocument e

end Value

def values : Node → List Value
  | functionDecl parameters body => [.nodes parameters, .node body]
  | functionExpr parameters body => [.nodes parameters, .node body]
  | parameterDecl name => [.text name]
  | blockStmt statements => [.nodes statements]
  | exprStmt expr => [.node expr]
  | returnStmt expr => [.node expr]
  | variableStmt name initializer => [.text name, .optionalNode initializer]
  | ifStmt condition thenBranch elseBranch =>
    [.node condition, .node thenBranch, .optionalNode elseBranch]
  | forOfStmt target expr body => [.node target, .node expr, .node body]
  | forInStmt target expr body => [.node target, .node expr, .node body]
  | whileStmt condition block => [.node condition, .node block]
  | doStmt block condition => [.node block, .node condition]
  | tryStmt tryBlock handler finalizer =>
    [.node tryBlock, .optionalNode handler, .optionalNode finalizer]
  | catchClause target block => [.optionalNode target, .node block]
  | throwStmt expr => [.node expr]
  | conditionExpr condition thenValue elseValue =>
    [.node condition, .node thenValue, .node elseValue]
  | binaryExpr left op right => [.node left, .text op, .node right]
  | unaryExpr op expr => [.text op, .node expr]
  | callExpr expr args => [.node expr, .nodes args]
  | newExpr expr args => [.node expr, .nodes args]
  | argument expr name => [.optionalNode expr, .optionalText name]
  | propAccessExpr expr name type => [.node expr, .text name, .optionalText type]
  | elementAccessExpr expr element type => [.node expr, .node element, .optionalText type]
  | arrayLiteralExpr items => [.nodes items]
  | objectLiteralExpr properties => [.nodes properties]
  | propAssignExpr name expr => [.node name, .node expr]
  | spreadAssignExpr expr => [.node expr]
  | spreadElementExpr expr => [.node expr]
  | computedPropertyNameExpr expr => [.node expr]
  | templateExpr parts => [.parts parts]
  | identifier name => [.text name]
  | referenceExpr path reference => [.text path, .thunk reference]
  | typeOfExpr expr => [.node expr]
  | stringLiteralExpr raw => [.string raw]
  | numberLiteralExpr raw => [.number raw]
  | booleanLiteralExpr value => [.flag value]
  | err error => [.error error]
  | breakStmt | continueStmt | nullLiteralExpr | undefinedLiteralExpr => []

def ofValues : NodeKind → List Value → Option Node
  | .functionDecl, [.nodes parameters, .node body] => some (functionDecl parameters body)
  | .functionExpr, [.nodes parameters, .node body] => some (functionExpr parameters body)
  | .parameterDecl, [.text name] => some (parameterDecl name)
  | .blockStmt, [.nodes statements] => some (blockStmt statements)
  | .exprStmt, [.node expr] => some (exprStmt expr)
  | .returnStmt, [.node expr] => some (returnStmt expr)
  | .variableStmt, [.text name, .optionalNode initializer] =>
    some (variableStmt name initializer)
  | .ifStmt, [.node condition, .node thenBranch, .optionalNode elseBranch] =>
    some (ifStmt condition thenBranch elseBranch)
  | .forOfStmt, [.node target, .node expr, .node body] => some (forOfStmt target expr body)
  | .forInStmt, [.node target, .node expr, .node body] => some (forInStmt target expr body)
  | .whileStmt, [.node condition, .node block] => some (whileStmt condition block)
  | .doStmt, [.node block, .node condition] => some (doStmt block condition)
  | .breakStmt, [] => some breakStmt
  | .continueStmt, [] => some continueStmt
  | .tryStmt, [.node tryBlock, .optionalNode handler, .optionalNode finalizer] =>
    some (tryStmt tryBlock handler finalizer)
  | .catchClause, [.optionalNode target, .node block] => some (catchClause target block)
  | .throwStmt, [.node expr] => some (throwStmt expr)
  | .conditionExpr, [.node condition, .node thenValue, .node elseValue] =>
    some (conditionExpr condition thenValue elseValue)
  | .binaryExpr, [.node left, .text op, .node right] => some (binaryExpr left op right)
  | .unaryExpr, [.text op, .node expr] => some (unaryExpr op expr)
  | .callExpr, [.node expr, .nodes args] => some (callExpr expr args)
  | .newExpr, [.node expr, .nodes args] => some (newExpr expr args)
  | .argument, [.optionalNode expr, .optionalText name] => some (argument expr name)
  | .propAccessExpr, [.node expr, .text name, .optionalText type] =>
    some (propAccessExpr expr name type)
  | .elementAccessExpr, [.node expr, .node element, .optionalText type] =>
    some (elementAccessExpr expr element type)
  | .arrayLiteralExpr, [.nodes items] => some (arrayLiteralExpr items)
  | .objectLiteralExpr, [.nodes properties] => some (objectLiteralExpr properties)
  | .propAssignExpr, [.node name, .node expr] => some (propAssignExpr name expr)
  | .spreadAssignExpr, [.node expr] => some (spreadAssignExpr expr)
  | .spreadElementExpr, [.node expr] => some (spreadElementExpr expr)
  | .computedPropertyNameExpr, [.node expr] => some (computedPropertyNameExpr expr)
  | .templateExpr, [.parts parts] => some (templateExpr parts)
  | .identifier, [.text name] => some (identifier name)
  | .referenceExpr, [.text path, .thunk reference] => some (referenceExpr path reference)
  | .typeOfExpr, [.node expr] => some (typeOfExpr expr)
  | .stringLiteralExpr, [.string raw] => some (stringLiteralExpr raw)
  | .numberLiteralExpr, [.number raw] => some (numberLiteralExpr raw)
  | .booleanLiteralExpr, [.flag value] => some (booleanLiteralExpr value)
  | .nullLiteralExpr, [] => some nullLiteralExpr
  | .undefinedLiteralExpr, [] => some undefinedLiteralExpr
  | .err, [.error error] => some (err error)
  | _, _ => none

theorem ofValues_values (n : Node) : ofValues n.kind n.values = some n := by
  cases n <;> rfl

theorem eq_of_values {n m : Node} (hkind : n.kind = m.kind) (hvalues : n.values = m.values) :
    n = m := by
  rw [← Option.some_inj, ← ofValues_values n, ← ofValues_values m, hkind, hvalues]

theorem map_type_values (n : Node) : n.values.map Value.type = n.kind.types := by
  cases n <;> rfl

theorem children_eq (n : Node) : n.children = n.values.flatMap Value.children := by
  cases n <;> simp [children, values, Value.children]

theorem emitChars_eq (b : List Char) (n : Node) :
    emitChars b n = construct b n.kind (n.values.map (Value.emit b)) := by
  cases n <;> rw [emitChars] <;> rfl

theorem toDocument_eq (n : Node) :
    n.toDocument = recordOf n.kind (n.values.map Value.toDocument) := by
  cases n <;> rw [toDocument] <;> rfl

/-! ## Induction -/

/-- The number of nodes in a node, itself included. -/
def size (n : Node) : Nat := fold (fun _ sizes => sizes.sum + 1) n

theorem size_eq (n : Node) : n.size = (n.children.map size).sum + 1 := fold_eq _ n

theorem size_lt_of_mem_children {n c : Node} (h : c ∈ n.children) : c.size < n.size := by
  rw [size_eq n, Nat.lt_succ_iff]
  exact List.le_sum_of_mem (List.mem_map_of_mem h)

@[elab_as_elim]
theorem induct {motive : Node → Prop}
    (node : ∀ n : Node, (∀ c ∈ n.children, motive c) → motive n) (n : Node) : motive n :=
  node n fun c _ => induct node c
termination_by n.size
decreasing_by exact size_lt_of_mem_children ‹_›

theorem mem_children {n c : Node} {v : Value} (hv : v ∈ n.values) (hc : c ∈ v.children) :
    c ∈ n.children := by
  rw [children_eq]
  exact List.mem_flatMap.mpr ⟨v, hv, hc⟩

end Node
end Reify
