/-
The shape of reflected functions.

Nodes of every kind have one type, so nothing in it keeps a statement out of an expression.
`Shaped role n` is the discipline that a well-formed node follows: its kind is one that may
stand in the role `role`, and each node it is constructed from is shaped for the role it plays
there (`parts`).  A kind that is admitted in one role only, such as an argument or a catch
clause, therefore occurs where that role is played and nowhere else (`kind_mem_hosts`); a
`functionDecl` is admitted only in the outermost role, which no part plays, and an error in
none.
-/
import Mathlib.Data.List.Basic
import Reify.Node.Traversal
import Reify.Operator

namespace Reify

/-- What a node is to the node that is constructed from it. -/
inductive Role
  | reflected | parameter | block | statement | expression
  /-- An array element or the value of an argument, which may be spread. -/
  | item
  | argument | property | propertyName | loopVariable | catchClause | catchVariable
  deriving DecidableEq, Repr

namespace Role

def statementKinds : List NodeKind :=
  [.blockStmt, .exprStmt, .returnStmt, .variableStmt, .ifStmt, .forOfStmt, .forInStmt,
    .whileStmt, .doStmt, .breakStmt, .continueStmt, .tryStmt, .throwStmt]

def expressionKinds : List NodeKind :=
  [.functionExpr, .conditionExpr, .binaryExpr, .unaryExpr, .callExpr, .newExpr,
    .propAccessExpr, .elementAccessExpr, .arrayLiteralExpr, .objectLiteralExpr, .templateExpr,
    .identifier, .referenceExpr, .typeOfExpr, .stringLiteralExpr, .numberLiteralExpr,
    .booleanLiteralExpr, .nullLiteralExpr, .undefinedLiteralExpr]

def kinds : Role → List NodeKind
  | reflected => [.functionDecl]
  | parameter => [.parameterDecl]
  | block => [.blockStmt]
  | statement => statementKinds
  | expression => expressionKinds
  | item => .spreadElementExpr :: expressionKinds
  | argument => [.argument]
  | property => [.propAssignExpr, .spreadAssignExpr]
  | propertyName =>
    [.identifier, .stringLiteralExpr, .numberLiteralExpr, .computedPropertyNameExpr]
  | loopVariable => [.identifier, .variableStmt]
  | catchClause => [.catchClause]
  | catchVariable => [.variableStmt]

/-- Whether the node in a role is constructed from no other, as a variable that is assigned
from outside. -/
def isLeaf : Role → Bool
  | loopVariable | catchVariable => true
  | _ => false

def admits (role : Role) (k : NodeKind) : Bool := role.kinds.contains k

def all : List Role :=
  [reflected, parameter, block, statement, expression, item, argument, property, propertyName,
    loopVariable, catchClause, catchVariable]

theorem mem_all (role : Role) : role ∈ all := by cases role <;> decide

/-- The role that admits a kind, if there is only one. -/
def only? (k : NodeKind) : Option Role :=
  match all.filter fun role => role.admits k with
  | [role] => some role
  | _ => none

theorem eq_of_only? {k : NodeKind} {role r : Role} (hr : only? k = some r)
    (h : role.admits k = true) : role = r := by
  have hmem : role ∈ all.filter fun role => role.admits k :=
    List.mem_filter.mpr ⟨role.mem_all, h⟩
  unfold only? at hr
  split at hr
  · next heq =>
    obtain rfl := Option.some.inj hr
    rw [heq] at hmem
    exact List.mem_singleton.mp hmem
  · cases hr

def hosts : Role → List NodeKind
  | reflected => []
  | parameter => [.functionDecl, .functionExpr]
  | item => [.arrayLiteralExpr, .argument]
  | argument => [.callExpr, .newExpr]
  | property => [.objectLiteralExpr]
  | propertyName => [.propAssignExpr]
  | loopVariable => [.forOfStmt, .forInStmt]
  | catchClause => [.tryStmt]
  | catchVariable => [.catchClause]
  | block =>
    [.functionDecl, .functionExpr, .forOfStmt, .forInStmt, .whileStmt, .doStmt, .tryStmt,
      .catchClause]
  | statement => [.blockStmt, .ifStmt]
  | expression => NodeKind.all

theorem admits_err (role : Role) : role.admits .err = false := by
  cases role <;> rfl

end Role

namespace Node

def parts : Node → List (Role × Node)
  | functionDecl parameters body => parameters.map (.parameter, ·) ++ [(.block, body)]
  | functionExpr parameters body => parameters.map (.parameter, ·) ++ [(.block, body)]
  | blockStmt statements => statements.map (.statement, ·)
  | exprStmt expr => [(.expression, expr)]
  | returnStmt expr => [(.expression, expr)]
  | variableStmt _ initializer => initializer.toList.map (.expression, ·)
  | ifStmt condition thenBranch elseBranch =>
    (.expression, condition) :: (.statement, thenBranch) :: elseBranch.toList.map (.statement, ·)
  | forOfStmt target expr body => [(.loopVariable, target), (.expression, expr), (.block, body)]
  | forInStmt target expr body => [(.loopVariable, target), (.expression, expr), (.block, body)]
  | whileStmt condition block => [(.expression, condition), (.block, block)]
  | doStmt block condition => [(.block, block), (.expression, condition)]
  | tryStmt tryBlock handler finalizer =>
    (.block, tryBlock) :: (handler.toList.map (.catchClause, ·) ++
      finalizer.toList.map (.block, ·))
  | catchClause target block => target.toList.map (.catchVariable, ·) ++ [(.block, block)]
  | throwStmt expr => [(.expression, expr)]
  | conditionExpr condition thenValue elseValue =>
    [(.expression, condition), (.expression, thenValue), (.expression, elseValue)]
  | binaryExpr left _ right => [(.expression, left), (.expression, right)]
  | unaryExpr _ expr => [(.expression, expr)]
  | callExpr expr args => (.expression, expr) :: args.map (.argument, ·)
  | newExpr expr args => (.expression, expr) :: args.map (.argument, ·)
  | argument expr _ => expr.toList.map (.item, ·)
  | propAccessExpr expr _ _ => [(.expression, expr)]
  | elementAccessExpr expr element _ => [(.expression, expr), (.expression, element)]
  | arrayLiteralExpr items => items.map (.item, ·)
  | objectLiteralExpr properties => properties.map (.property, ·)
  | propAssignExpr name expr => [(.propertyName, name), (.expression, expr)]
  | spreadAssignExpr expr => [(.expression, expr)]
  | spreadElementExpr expr => [(.expression, expr)]
  | computedPropertyNameExpr expr => [(.expression, expr)]
  | templateExpr parts => (parts.filterMap TemplatePart.node?).map (.expression, ·)
  | typeOfExpr expr => [(.expression, expr)]
  | parameterDecl _ | breakStmt | continueStmt | identifier _ | referenceExpr _ _
  | stringLiteralExpr _ | numberLiteralExpr _ | booleanLiteralExpr _ | nullLiteralExpr
  | undefinedLiteralExpr | err _ => []

theorem map_snd_map_role (role : Role) (ns : List Node) :
    (ns.map (role, ·)).map Prod.snd = ns := by
  rw [List.map_map]
  exact List.map_id ns

theorem map_snd_parts (n : Node) : n.parts.map Prod.snd = n.children := by
  cases n <;>
    simp only [parts, children, List.map_append, List.map_cons, List.map_nil, map_snd_map_role]

theorem kind_mem_hosts_of_part (n : Node) : ∀ p ∈ n.parts, n.kind ∈ p.1.hosts := by
  cases n with
  | templateExpr parts =>
    intro p hp
    obtain ⟨m, -, rfl⟩ := List.mem_map.mp hp
    simp only [kind]
    decide
  | _ => simp [parts, kind, Role.hosts, NodeKind.all, or_imp, forall_and]

/-- Whether the operator, if the node has one, is a symbol of the operator tables. -/
def hasKnownOperator : Node → Bool
  | binaryExpr _ op _ => (Operator.binaryTable.map Prod.snd).contains op
  | unaryExpr op _ => (Operator.unaryTable.map Prod.snd).contains op
  | _ => true

end Node

/-- A node that may stand in a role, and whose parts are shaped for theirs. -/
inductive Shaped : Role → Node → Prop
  | node {role : Role} {n : Node} (kind : role.admits n.kind = true)
      (leaf : role.isLeaf = true → n.children = []) (operator : n.hasKnownOperator = true)
      (parts : ∀ p ∈ n.parts, Shaped p.1 p.2) : Shaped role n

namespace Node

theorem mem_visits {n : Node} {v : Visit} (h : v ∈ n.visits) :
    v = .ofNode n ∨ ∃ c ∈ n.children, v ∈ c.visits := by
  rwa [visits_eq_cons, List.mem_cons, List.mem_flatMap] at h

theorem Visit.eq_of_enter_eq {n m : Node} (h : enter m = ofNode n) : m = n := by
  cases n <;> cases h <;> rfl

theorem exists_part_of_mem_children {n c : Node} (h : c ∈ n.children) :
    ∃ role, (role, c) ∈ n.parts := by
  rw [← map_snd_parts] at h
  obtain ⟨⟨role, m⟩, hm, rfl⟩ := List.mem_map.mp h
  exact ⟨role, hm⟩

end Node

namespace Shaped

open Node

theorem visit_ne_err {role : Role} {n : Node} (h : Shaped role n) :
    ∀ v ∈ n.visits, v.kind ≠ .err := by
  induction h with
  | @node role n kind _ _ _ ih =>
    intro v hv herr
    rcases mem_visits hv with rfl | ⟨c, hc, hv⟩
    · rw [← Visit.kind_ofNode, herr, Role.admits_err] at kind
      cases kind
    · obtain ⟨inner, hpart⟩ := exists_part_of_mem_children hc
      exact ih _ hpart v hv herr

theorem errors_eq_nil {role : Role} {n : Node} (h : Shaped role n) : n.errors = [] := by
  rw [errors, List.filterMap_eq_nil_iff]
  intro v hv
  have herr := h.visit_ne_err v hv
  cases v with
  | error e => exact absurd rfl herr
  | enter m => rfl
  | reference path reference => rfl

theorem exists_role_of_enter {role : Role} {n m : Node} (h : Shaped role n)
    (hm : .enter m ∈ n.visits) : ∃ inner, Shaped inner m := by
  induction h with
  | @node role n kind leaf operator parts ih =>
    rcases mem_visits hm with henter | ⟨c, hc, hm⟩
    · rw [Visit.eq_of_enter_eq henter]
      exact ⟨role, .node kind leaf operator parts⟩
    · obtain ⟨inner, hpart⟩ := exists_part_of_mem_children hc
      exact ih _ hpart hm

/-- In a shaped node, a kind that one role admits occurs only where that role is played. -/
theorem kind_mem_hosts {role r : Role} {n c : Node} (h : Shaped role n) (hc : c ∈ n.children)
    (hr : Role.only? c.kind = some r) : n.kind ∈ r.hosts := by
  obtain ⟨inner, hpart⟩ := exists_part_of_mem_children hc
  cases h with
  | node _ _ _ parts =>
    cases parts _ hpart with
    | node kind =>
      rw [← Role.eq_of_only? hr kind]
      exact kind_mem_hosts_of_part n _ hpart

end Shaped
end Reify
