/-
Traversal of nodes.

`fold` combines a value at every node with the values of its children; `fold_eq` is its
equation.  `visits` is the run of a visitor: an error or a reference is shown to it as such,
and any other node is entered before its children are visited.
-/
import Reify.Node.Basic

namespace Reify
namespace Node

variable {α : Type}

mutual

/-- The value of a node, from the values of its children. -/
def fold (f : Node → List α → α) : Node → α
  | functionDecl parameters body =>
    f (functionDecl parameters body) (foldList f parameters ++ [fold f body])
  | functionExpr parameters body =>
    f (functionExpr parameters body) (foldList f parameters ++ [fold f body])
  | parameterDecl name => f (parameterDecl name) []
  | blockStmt statements => f (blockStmt statements) (foldList f statements)
  | exprStmt expr => f (exprStmt expr) [fold f expr]
  | returnStmt expr => f (returnStmt expr) [fold f expr]
  | variableStmt name initializer => f (variableStmt name initializer) (foldOption f initializer)
  | ifStmt condition thenBranch elseBranch =>
    f (ifStmt condition thenBranch elseBranch)
      (fold f condition :: fold f thenBranch :: foldOption f elseBranch)
  | forOfStmt target expr body =>
    f (forOfStmt target expr body) [fold f target, fold f expr, fold f body]
  | forInStmt target expr body =>
    f (forInStmt target expr body) [fold f target, fold f expr, fold f body]
  | whileStmt condition block => f (whileStmt condition block) [fold f condition, fold f block]
  | doStmt block condition => f (doStmt block condition) [fold f block, fold f condition]
  | breakStmt => f breakStmt []
  | continueStmt => f continueStmt []
  | tryStmt tryBlock handler finalizer =>
    f (tryStmt tryBlock handler finalizer)
      (fold f tryBlock :: (foldOption f handler ++ foldOption f finalizer))
  | catchClause target block =>
    f (catchClause target block) (foldOption f target ++ [fold f block])
  | throwStmt expr => f (throwStmt expr) [fold f expr]
  | conditionExpr condition thenValue elseValue =>
    f (conditionExpr condition thenValue elseValue)
      [fold f condition, fold f thenValue, fold f elseValue]
  | binaryExpr left op right => f (binaryExpr left op right) [fold f left, fold f right]
  | unaryExpr op expr => f (unaryExpr op expr) [fold f expr]
  | callExpr expr args => f (callExpr expr args) (fold f expr :: foldList f args)
  | newExpr expr args => f (newExpr expr args) (fold f expr :: foldList f args)
  | argument expr name => f (argument expr name) (foldOption f expr)
  | propAccessExpr expr name type => f (propAccessExpr expr name type) [fold f expr]
  | elementAccessExpr expr element type =>
    f (elementAccessExpr expr element type) [fold f expr, fold f element]
  | arrayLiteralExpr items => f (arrayLiteralExpr items) (foldList f items)
  | objectLiteralExpr properties => f (objectLiteralExpr properties) (foldList f properties)
  | propAssignExpr name expr => f (propAssignExpr name expr) [fold f name, fold f expr]
  | spreadAssignExpr expr => f (spreadAssignExpr expr) [fold f expr]
  | spreadElementExpr expr => f (spreadElementExpr expr) [fold f expr]
  | computedPropertyNameExpr expr => f (computedPropertyNameExpr expr) [fold f expr]
  | templateExpr parts => f (templateExpr parts) (foldParts f parts)
  | identifier name => f (identifier name) []
  | referenceExpr path reference => f (referenceExpr path reference) []
  | typeOfExpr expr => f (typeOfExpr expr) [fold f expr]
  | stringLiteralExpr raw => f (stringLiteralExpr raw) []
  | numberLiteralExpr raw => f (numberLiteralExpr raw) []
  | booleanLiteralExpr value => f (booleanLiteralExpr value) []
  | nullLiteralExpr => f nullLiteralExpr []
  | undefinedLiteralExpr => f undefinedLiteralExpr []
  | err error => f (err error) []

def foldList (f : Node → List α → α) : List Node → List α
  | [] => []
  | n :: ns => fold f n :: foldList f ns

def foldOption (f : Node → List α → α) : Option Node → List α
  | none => []
  | some n => [fold f n]

def foldParts (f : Node → List α → α) : List TemplatePart → List α
  | [] => []
  | .literal _ :: parts => foldParts f parts
  | .expr n :: parts => fold f n :: foldParts f parts

end

theorem foldList_eq (f : Node → List α → α) (ns : List Node) :
    foldList f ns = ns.map (fold f) := by
  induction ns with
  | nil => rfl
  | cons n ns ih => rw [foldList, ih, List.map_cons]

theorem foldOption_eq (f : Node → List α → α) (n : Option Node) :
    foldOption f n = n.toList.map (fold f) := by
  cases n <;> rfl

theorem foldParts_eq (f : Node → List α → α) (parts : List TemplatePart) :
    foldParts f parts = (parts.filterMap TemplatePart.node?).map (fold f) := by
  induction parts with
  | nil => rfl
  | cons part parts ih =>
    cases part <;> simp [foldParts, ih, TemplatePart.node?, List.filterMap_cons]

theorem fold_eq (f : Node → List α → α) (n : Node) :
    fold f n = f n (n.children.map (fold f)) := by
  cases n <;> simp [fold, children, foldList_eq, foldOption_eq, foldParts_eq]

/-- One call that a traversal makes on a visitor. -/
inductive Visit
  | enter (node : Node)
  | error (error : ErrorValue)
  | reference (path reference : String)

namespace Visit

def kind : Visit → NodeKind
  | enter node => node.kind
  | error _ => .err
  | reference _ _ => .referenceExpr

def error? : Visit → Option ErrorValue
  | error e => some e
  | enter _ | reference _ _ => none

def ofNode : Node → Visit
  | .err e => error e
  | .referenceExpr path expr => reference path expr
  | n => enter n

theorem kind_ofNode (n : Node) : (ofNode n).kind = n.kind := by cases n <;> rfl

end Visit

def visitsAt (n : Node) (below : List (List Visit)) : List Visit :=
  match n with
  | err error => [.error error]
  | referenceExpr path reference => [.reference path reference]
  | n => .enter n :: below.flatten

/-- The calls that a traversal of a node makes on a visitor, in order. -/
def visits (n : Node) : List Visit := fold visitsAt n

theorem visits_eq (n : Node) : n.visits = visitsAt n (n.children.map visits) := fold_eq visitsAt n

/-- The call for a node comes before those for its children, if it has any. -/
theorem visits_eq_cons (n : Node) : n.visits = Visit.ofNode n :: n.children.flatMap visits := by
  rw [visits_eq, List.flatMap_def]
  cases n <;> rfl

def errors (n : Node) : List ErrorValue := n.visits.filterMap Visit.error?

end Node

structure KindCounter where
  count : NodeKind → Nat

namespace KindCounter

def empty : KindCounter := ⟨fun _ => 0⟩

def bump (c : KindCounter) (k : NodeKind) : KindCounter :=
  ⟨fun j => if j = k then c.count j + 1 else c.count j⟩

def visit (c : KindCounter) (n : Node) : KindCounter :=
  n.visits.foldl (fun c v => c.bump v.kind) c

theorem count_visit (c : KindCounter) (n : Node) (k : NodeKind) :
    (c.visit n).count k = c.count k + (n.visits.map Node.Visit.kind).count k := by
  rw [visit]
  induction n.visits generalizing c with
  | nil => rfl
  | cons v vs ih =>
    rw [List.foldl_cons, ih, List.map_cons, List.count_cons, bump]
    by_cases h : v.kind = k
    · simp [h, Nat.add_assoc, Nat.add_comm 1]
    · simp [h, Ne.symm h]

end KindCounter
end Reify
