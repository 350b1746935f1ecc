/-
Everything in the documented subset is accepted.

`Reflectable φ t` says that `t` is a phrase of the sort `φ` in the grammar of reflectable
functions: what it is made of stands in fields or among its named children, and comments, type
syntax and other tokens may stand anywhere.  A phrase lowers wherever the grammar has it
(`accepted`), by induction on its derivation with one lemma for each construct.
-/
import Reify.Proofs.Lowering.Blame

namespace Reify

open Lowering

/-! ## The documented subset -/

inductive Phrase
  | expression | element | property | propertyName | substitution
  | statement | block | declarator | elseClause | catchClause | finallyClause
  | body | function
  deriving DecidableEq, Repr

namespace Tree

def literalKinds : List Kind :=
  [.undefinedLiteral, .nullLiteral, .trueLiteral, .falseLiteral, .numberLiteral, .stringLiteral]

def wrapperKinds : List Kind :=
  [.parenthesizedExpression, .asExpression, .satisfiesExpression, .nonNullExpression]

def functionKinds : List Kind := [.arrowFunction, .functionExpression, .functionDeclaration]

def Unchained (t : Tree) : Prop :=
  ∀ c ∈ t.children, c.field ≠ some "optional_chain" ∧ c.kind ≠ .optionalChain ∧
    (c.named = false → c.text ≠ "?.")

/-- A name, or three dots before a name. -/
inductive NamePattern (t : Tree) : Prop
  | name (kind : t.kind = .identifier)
  | rest {name} (kind : t.kind = .restPattern) (operand : t.firstNamedChild? = some name)
      (identifier : name.kind = .identifier)

/-- A parameter that binds one name, whether it is optional, has a default, or collects the
remaining arguments. -/
inductive NameParameter (t : Tree) : Prop
  | bare (pattern : t.NamePattern)
  | typed {pattern} (kind : t.kind = .requiredParameter ∨ t.kind = .optionalParameter)
      (field : t.childByField? "pattern" = some pattern) (name : pattern.NamePattern)

end Tree

open Reify.Tree

/-- The grammar of the documented subset. -/
inductive Reflectable : Phrase → Tree → Prop
  | identifier {t} (kind : t.kind = .identifier) : Reflectable .expression t
  | literal {t} (kind : t.kind ∈ literalKinds) : Reflectable .expression t
  | template {t} (kind : t.kind = .templateString)
      (inside : ∀ c ∈ t.children, c.kind = .templateSubstitution →
        t.span.start ≤ c.span.start ∧ c.span.start ≤ c.span.stop)
      (substitutions : ∀ c ∈ t.children, c.kind = .templateSubstitution →
        Reflectable .substitution c) : Reflectable .expression t
  | wrapper {t e} (kind : t.kind ∈ wrapperKinds) (operand : t.firstNamedChild? = some e)
      (inner : Reflectable .expression e) : Reflectable .expression t
  | assertion {t e} (kind : t.kind = .typeAssertion) (operand : t.lastNamedChild? = some e)
      (inner : Reflectable .expression e) : Reflectable .expression t
  | member {t object property} (kind : t.kind = .memberExpression) (plain : t.Unchained)
      (objectField : t.childByField? "object" = some object)
      (propertyField : t.childByField? "property" = some property)
      (object : Reflectable .expression object) : Reflectable .expression t
  | subscript {t object index} (kind : t.kind = .subscriptExpression) (plain : t.Unchained)
      (objectField : t.childByField? "object" = some object)
      (indexField : t.childByField? "index" = some index)
      (object : Reflectable .expression object) (index : Reflectable .expression index) :
    Reflectable .expression t
  | call {t callee} (kind : t.kind = .callExpression) (plain : t.Unchained)
      (calleeField : t.childByField? "function" = some callee)
      (list : t.argumentList?.isSome = true) (callee : Reflectable .expression callee)
      (arguments : ∀ c ∈ t.callArguments, Reflectable .element c) : Reflectable .expression t
  | construction {t callee} (kind : t.kind = .newExpression)
      (calleeField : t.childByField? "constructor" = some callee)
      (callee : Reflectable .expression callee)
      (arguments : ∀ c ∈ t.callArguments, Reflectable .element c) : Reflectable .expression t
  | binary {t operator left right} (kind : t.kind = .binaryExpression)
      (operatorField : t.childByField? "operator" = some operator)
      (mapped : operator.text ∈ Operator.binaryTable.map Prod.fst)
      (leftField : t.childByField? "left" = some left)
      (rightField : t.childByField? "right" = some right)
      (left : Reflectable .expression left) (right : Reflectable .expression right) :
    Reflectable .expression t
  | assignment {t left right} (kind : t.kind = .assignmentExpression)
      (leftField : t.childByField? "left" = some left)
      (rightField : t.childByField? "right" = some right)
      (left : Reflectable .expression left) (right : Reflectable .expression right) :
    Reflectable .expression t
  | unary {t operator argument} (kind : t.kind = .unaryExpression)
      (operatorField : t.childByField? "operator" = some operator)
      (mapped : operator.text = "typeof" ∨ operator.text ∈ Operator.unaryTable.map Prod.fst)
      (argumentField : t.childByField? "argument" = some argument)
      (argument : Reflectable .expression argument) : Reflectable .expression t
  | ternary {t condition thenValue elseValue} (kind : t.kind = .ternaryExpression)
      (conditionField : t.childByField? "condition" = some condition)
      (thenField : t.childByField? "consequence" = some thenValue)
      (elseField : t.childByField? "alternative" = some elseValue)
      (condition : Reflectable .expression condition)
      (thenValue : Reflectable .expression thenValue)
      (elseValue : Reflectable .expression elseValue) : Reflectable .expression t
  | array {t} (kind : t.kind = .array) (elements : ∀ c ∈ t.namedChildren, Reflectable .element c) :
    Reflectable .expression t
  | object {t} (kind : t.kind = .object)
      (properties : ∀ c ∈ t.namedChildren, Reflectable .property c) : Reflectable .expression t
  | nested {t} (kind : t.kind = .arrowFunction ∨ t.kind = .functionExpression)
      (function : Reflectable .function t) : Reflectable .expression t
  | plainElement {t} (expression : Reflectable .expression t) : Reflectable .element t
  | spreadElement {t e} (kind : t.kind = .spreadElement) (operand : t.firstNamedChild? = some e)
      (inner : Reflectable .expression e) : Reflectable .element t
  | pair {t key value} (kind : t.kind = .pair) (keyField : t.childByField? "key" = some key)
      (valueField : t.childByField? "value" = some value) (key : Reflectable .propertyName key)
      (value : Reflectable .expression value) : Reflectable .property t
  | shorthand {t} (kind : t.kind = .shorthandPropertyIdentifier) : Reflectable .property t
  | spreadProperty {t e} (kind : t.kind = .spreadElement) (operand : t.firstNamedChild? = some e)
      (inner : Reflectable .expression e) : Reflectable .property t
  | plainName {t} (kind : t.kind ∈ [.propertyIdentifier, .stringLiteral, .numberLiteral]) :
    Reflectable .propertyName t
  | computedName {t e} (kind : t.kind = .computedPropertyName)
      (operand : t.firstNamedChild? = some e) (inner : Reflectable .expression e) :
    Reflectable .propertyName t
  | substitution {t e} (operand : t.firstNamedChild? = some e)
      (inner : Reflectable .expression e) : Reflectable .substitution t
  | expressionStatement {t e} (kind : t.kind = .expressionStatement)
      (operand : t.firstNamedChild? = some e) (inner : Reflectable .expression e) :
    Reflectable .statement t
  | blockStatement {t} (block : Reflectable .block t) : Reflectable .statement t
  | declaration {t} (kind : t.kind = .lexicalDeclaration ∨ t.kind = .variableDeclaration)
      (declarators : ∀ c ∈ t.namedChildren, c.kind = .variableDeclarator →
        Reflectable .declarator c) : Reflectable .statement t
  | empty {t} (kind : t.kind = .emptyStatement) : Reflectable .statement t
  | returned {t} (kind : t.kind = .returnStatement)
      (value : ∀ e, t.firstNamedChild? = some e → Reflectable .expression e) :
    Reflectable .statement t
  | conditional {t condition branch} (kind : t.kind = .ifStatement)
      (conditionField : t.childByField? "condition" = some condition)
      (branchField : t.childByField? "consequence" = some branch)
      (condition : Reflectable .expression condition) (branch : Reflectable .statement branch)
      (otherwise : ∀ c, t.childByField? "alternative" = some c → Reflectable .elseClause c) :
    Reflectable .statement t
  | loop {t condition body} (kind : t.kind = .whileStatement ∨ t.kind = .doStatement)
      (conditionField : t.childByField? "condition" = some condition)
      (bodyField : t.childByField? "body" = some body)
      (condition : Reflectable .expression condition) (body : Reflectable .statement body) :
    Reflectable .statement t
  | forEach {t target right body} (kind : t.kind = .forInStatement)
      (sync : t.hasToken "await" = false) (targetField : t.childByField? "left" = some target)
      (name : target.kind = .identifier) (rightField : t.childByField? "right" = some right)
      (bodyField : t.childByField? "body" = some body) (right : Reflectable .expression right)
      (body : Reflectable .statement body) : Reflectable .statement t
  | jump {t} (kind : t.kind = .breakStatement ∨ t.kind = .continueStatement)
      (unlabeled : t.firstNamedChild? = none) : Reflectable .statement t
  | tried {t body} (kind : t.kind = .tryStatement) (bodyField : t.childByField? "body" = some body)
      (body : Reflectable .block body)
      (handler : ∀ c, t.childByField? "handler" = some c → Reflectable .catchClause c)
      (finalizer : ∀ c, t.childByField? "finalizer" = some c → Reflectable .finallyClause c) :
    Reflectable .statement t
  | thrown {t e} (kind : t.kind = .throwStatement) (operand : t.firstNamedChild? = some e)
      (inner : Reflectable .expression e) : Reflectable .statement t
  | functionStatement {t name} (kind : t.kind = .functionDeclaration)
      (nameField : t.childByField? "name" = some name) (function : Reflectable .function t) :
    Reflectable .statement t
  | block {t} (kind : t.kind = .statementBlock)
      (statements : ∀ c ∈ t.namedChildren, Reflectable .statement c) : Reflectable .block t
  | declarator {t name} (nameField : t.childByField? "name" = some name)
      (identifier : name.kind = .identifier)
      (value : ∀ e, t.childByField? "value" = some e → Reflectable .expression e) :
    Reflectable .declarator t
  | elseClause {t branch} (operand : t.firstNamedChild? = some branch)
      (branch : Reflectable .statement branch) : Reflectable .elseClause t
  | catchClause {t body} (bodyField : t.childByField? "body" = some body)
      (binding : ∀ p, t.childByField? "parameter" = some p → p.kind = .identifier)
      (body : Reflectable .block body) : Reflectable .catchClause t
  | finallyClause {t body} (bodyField : t.childByField? "body" = some body)
      (body : Reflectable .block body) : Reflectable .finallyClause t
  | expressionBody {t} (expression : Reflectable .expression t) : Reflectable .body t
  | blockBody {t} (block : Reflectable .block t) : Reflectable .body t
  | function {t body} (kind : t.kind ∈ functionKinds) (sync : t.hasToken "async" = false)
      (parameters : ∀ list, t.childByField? "parameters" = some list →
        ∀ p ∈ list.namedChildren, p.NameParameter)
      (bodyField : t.childByField? "body" = some body) (body : Reflectable .body body) :
    Reflectable .function t

/-! ## Parts that lower -/

abbrev Lowering.Succeeds {α : Type} (r : Lowering α) : Prop := FailsBy (fun _ => False) r

theorem Lowering.Succeeds.exists_ok {α : Type} {r : Lowering α} (h : r.Succeeds) :
    ∃ a, r = .ok a := by
  cases r with
  | error f => exact (h f rfl).elim
  | ok a => exact ⟨a, rfl⟩

section Parts

variable (o : Oracle) (pos : Position) (t : Tree)

def FieldLowers (name : String) : Prop :=
  ∃ c, t.childByField? name = some c ∧ Succeeds (lowerAt o pos c)

def OptionalLowers (name : String) : Prop :=
  ∀ c, t.childByField? name = some c → Succeeds (lowerAt o pos c)

def OperandLowers : Prop := ∃ c, t.firstNamedChild? = some c ∧ Succeeds (lowerAt o pos c)

def RowLowers : Prop := ∀ c ∈ t.namedChildren, Succeeds (lowerAt o pos c)

end Parts

variable {o : Oracle} {t : Tree}

section Parts

variable {pos : Position} {info : Tree.Info} {children : List Tree}

theorem FieldLowers.required {name : String} (h : FieldLowers o pos (.node info children) name) :
    Succeeds (required info (lowerChildren o pos (Tree.inField name) children).head?) := by
  obtain ⟨c, hc, hlowers⟩ := h
  have hfound : children.find? (Tree.inField name) = some c := hc
  rw [head?_lowerChildren, hfound]
  exact hlowers

theorem OptionalLowers.optional {name : String}
    (h : OptionalLowers o pos (.node info children) name) :
    Succeeds (optional (lowerChildren o pos (Tree.inField name) children).head?) := by
  rw [head?_lowerChildren]
  refine .optional fun r hr => ?_
  obtain ⟨c, hc, rfl⟩ := Option.map_eq_some_iff.mp hr
  exact h c hc

theorem OperandLowers.required (h : OperandLowers o pos (.node info children)) :
    Succeeds (required info (lowerChildren o pos Tree.isOperand children).head?) := by
  obtain ⟨c, hc, hlowers⟩ := h
  rw [firstNamedChild?_eq] at hc
  have hfound : children.find? Tree.isOperand = some c := hc
  rw [head?_lowerChildren, hfound]
  exact hlowers

theorem RowLowers.gather (h : RowLowers o pos (.node info children)) :
    Succeeds (gather (lowerChildren o pos Tree.isOperand children)) := by
  rw [lowerChildren_eq]
  refine .gather fun r hr => ?_
  obtain ⟨c, hc, rfl⟩ := List.mem_map.mp hr
  exact h c hc

end Parts

theorem isSome_lookup_of_mem {table : List (String × String)} {key : String}
    (h : key ∈ table.map Prod.fst) : (table.lookup key).isSome = true := by
  rw [List.lookup_isSome_iff]
  simpa using h

/-! ## Expressions -/

theorem name_succeeds (kind : t.kind = .identifier ∨ t.kind = .shorthandPropertyIdentifier) :
    Succeeds (lowerExpr o t) := by
  obtain ⟨info, children⟩ := t
  unfold lowerExpr
  rcases kind with kind | kind
  all_goals
    have hkind : info.kind = _ := kind
    simp only [hkind]
    split <;> exact .ok _

theorem literal_succeeds (kind : t.kind ∈ literalKinds) : Succeeds (lowerExpr o t) := by
  obtain ⟨info, children⟩ := t
  have hkind : info.kind ∈ literalKinds := kind
  simp only [literalKinds, List.mem_cons, List.not_mem_nil, or_false] at hkind
  unfold lowerExpr
  rcases hkind with hkind | hkind | hkind | hkind | hkind | hkind
  all_goals
    simp only [hkind]
    exact .ok _

/-- Text is cut from a template without underflow if no substitution lies before it. -/
theorem template_succeeds (kind : t.kind = .templateString)
    (inside : ∀ c ∈ t.children, c.kind = .templateSubstitution →
      t.span.start ≤ c.span.start ∧ c.span.start ≤ c.span.stop)
    (substitutions : ∀ c ∈ t.children, c.kind = .templateSubstitution →
      Succeeds (lowerAt o .substitution c)) : Succeeds (lowerExpr o t) := by
  obtain ⟨info, children⟩ := t
  have hkind : info.kind = .templateString := kind
  unfold lowerExpr
  simp only [hkind, lowerChildren_eq]
  have hmem {c : Tree} (hc : c ∈ children.filter isSubstitution) :
      c ∈ children ∧ c.kind = .templateSubstitution := by
    simpa [isSubstitution] using hc
  refine (parts_fails (fun hbefore => hbefore ⟨Nat.le_succ _, fun x hx => ?_⟩)
    fun x hx => ?_).map
  · obtain ⟨c, hc, hspan⟩ := List.mem_map.mp (List.of_mem_zip hx).1
    obtain ⟨hstart, hforward⟩ := inside c (hmem hc).1 (hmem hc).2
    have hstart := UInt32.le_iff_toNat_le.mp hstart
    have hforward := UInt32.le_iff_toNat_le.mp hforward
    rw [← hspan]
    exact ⟨hstart, Nat.le_trans hstart hforward⟩
  · obtain ⟨c, hc, hr⟩ := List.mem_map.mp (List.of_mem_zip hx).2
    rw [← hr]
    exact substitutions c (hmem hc).1 (hmem hc).2

theorem wrapper_succeeds (kind : t.kind ∈ wrapperKinds) (operand : OperandLowers o .value t) :
    Succeeds (lowerExpr o t) := by
  obtain ⟨info, children⟩ := t
  have hkind : info.kind ∈ wrapperKinds := kind
  simp only [wrapperKinds, List.mem_cons, List.not_mem_nil, or_false] at hkind
  unfold lowerExpr
  rcases hkind with hkind | hkind | hkind | hkind
  all_goals
    simp only [hkind]
    exact operand.required

theorem assertion_succeeds {e : Tree} (kind : t.kind = .typeAssertion)
    (operand : t.lastNamedChild? = some e) (inner : Succeeds (lowerAt o .value e)) :
    Succeeds (lowerExpr o t) := by
  obtain ⟨info, children⟩ := t
  have hkind : info.kind = .typeAssertion := kind
  have hfound : (children.filter Tree.isOperand).getLast? = some e := operand
  unfold lowerExpr
  simp only [hkind, getLast?_lowerChildren, hfound]
  exact inner

theorem requiredField_succeeds {name : String} {c : Tree} (h : t.childByField? name = some c) :
    Succeeds (requiredField t name) := by
  rw [requiredField_eq_ok.mpr h]
  exact .ok c

theorem Tree.Unchained.succeeds (h : t.Unchained) : Succeeds (rejectOptionalChain t) := by
  have hfield : t.childByField? "optional_chain" = none := by
    refine List.find?_eq_none.mpr fun c hc => ?_
    simpa [Tree.inField] using (h c hc).1
  have htoken : t.hasToken "?." = false := by
    refine List.any_eq_false.mpr fun c hc => ?_
    simpa using (h c hc).2.2
  have hmark : t.children.any (·.kind == .optionalChain) = false := by
    refine List.any_eq_false.mpr fun c hc => ?_
    simpa using (h c hc).2.1
  rw [rejectOptionalChain, isOptionalChain, hfield, htoken, hmark]
  exact .ok ()

theorem member_succeeds {property : Tree} (kind : t.kind = .memberExpression)
    (plain : t.Unchained) (object : FieldLowers o .value t "object")
    (propertyField : t.childByField? "property" = some property) : Succeeds (lowerExpr o t) := by
  have hproperty : Succeeds (requiredField t "property") := requiredField_succeeds propertyField
  obtain ⟨info, children⟩ := t
  have hkind : info.kind = .memberExpression := kind
  unfold lowerExpr
  simp only [hkind]
  refine plain.succeeds.bind fun _ _ => ?_
  split
  · exact .ok _
  · exact object.required.bind fun _ _ => hproperty.map

theorem subscript_succeeds (kind : t.kind = .subscriptExpression) (plain : t.Unchained)
    (object : FieldLowers o .value t "object") (index : FieldLowers o .value t "index") :
    Succeeds (lowerExpr o t) := by
  obtain ⟨info, children⟩ := t
  have hkind : info.kind = .subscriptExpression := kind
  unfold lowerExpr
  simp only [hkind]
  refine plain.succeeds.bind fun _ _ => ?_
  split
  · exact .ok _
  · exact object.required.bind fun _ _ => index.required.map

/-- Arguments are bound where the callee has a usable signature, if only none at all. -/
theorem bound_succeeds (hinvocation : t.isInvocation = true)
    (signature : Succeeds (Arguments.usableSignature o t))
    (arguments : ∀ c ∈ t.callArguments, Succeeds (lowerAt o .element c)) :
    Succeeds (Arguments.assemble o t (lowerArguments o t.children)) := by
  refine assemble_arguments_fails signature fun r hr => ?_
  rw [lowerArguments_eq o hinvocation] at hr
  obtain ⟨c, hc, rfl⟩ := List.mem_map.mp hr
  exact arguments c hc

theorem call_succeeds (kind : t.kind = .callExpression) (plain : t.Unchained)
    (signature : Succeeds (Arguments.usableSignature o t))
    (callee : FieldLowers o .value t "function") (list : t.argumentList?.isSome = true)
    (arguments : ∀ c ∈ t.callArguments, Succeeds (lowerAt o .element c)) :
    Succeeds (lowerExpr o t) := by
  have hinvocation : t.isInvocation = true := by rw [isInvocation, kind]
  have huntagged : Succeeds (rejectTaggedTemplate t) := by
    obtain ⟨found, hfound⟩ := Option.isSome_iff_exists.mp list
    have hfield : t.childByField? "arguments" = some found ∧ found.kind = .arguments := by
      rw [argumentList?, if_pos hinvocation] at hfound
      split at hfound
      · split at hfound
        · next child hchild hlist =>
          obtain rfl := Option.some.inj hfound
          exact ⟨hchild, hlist⟩
        · cases hfound
      · cases hfound
    rw [rejectTaggedTemplate_eq_ok.mpr ⟨found, hfield⟩]
    exact .ok ()
  have hbound := bound_succeeds hinvocation signature arguments
  obtain ⟨info, children⟩ := t
  have hkind : info.kind = .callExpression := kind
  unfold lowerExpr
  simp only [hkind]
  exact plain.succeeds.bind fun _ _ => huntagged.bind fun _ _ =>
    callee.required.bind fun _ _ => hbound.map

theorem construction_succeeds (kind : t.kind = .newExpression)
    (signature : Succeeds (Arguments.usableSignature o t))
    (callee : FieldLowers o .value t "constructor")
    (arguments : ∀ c ∈ t.callArguments, Succeeds (lowerAt o .element c)) :
    Succeeds (lowerExpr o t) := by
  have hbound := bound_succeeds (by rw [isInvocation, kind]) signature arguments
  obtain ⟨info, children⟩ := t
  have hkind : info.kind = .newExpression := kind
  unfold lowerExpr
  simp only [hkind]
  split
  · exact hbound.bind fun _ _ => callee.required.map
  · exact (FailsBy.ok []).bind fun _ _ => callee.required.map

theorem binary_succeeds {operator : Tree} (kind : t.kind = .binaryExpression)
    (operatorField : t.childByField? "operator" = some operator)
    (mapped : operator.text ∈ Operator.binaryTable.map Prod.fst)
    (left : FieldLowers o .value t "left") (right : FieldLowers o .value t "right") :
    Succeeds (lowerExpr o t) := by
  have htoken := requiredField_eq_ok.mpr operatorField
  obtain ⟨symbol, hsymbol⟩ := Option.isSome_iff_exists.mp (isSome_lookup_of_mem mapped)
  have hsymbol : Operator.binary? operator.text = some symbol := hsymbol
  obtain ⟨info, children⟩ := t
  have hkind : info.kind = .binaryExpression := kind
  unfold lowerExpr
  simp only [hkind, htoken]
  refine (FailsBy.ok operator).bind fun token h => ?_
  obtain rfl := Except.ok.inj h
  simp only [hsymbol]
  exact left.required.bind fun _ _ => right.required.map

theorem assignment_succeeds (kind : t.kind = .assignmentExpression)
    (left : FieldLowers o .value t "left") (right : FieldLowers o .value t "right") :
    Succeeds (lowerExpr o t) := by
  obtain ⟨info, children⟩ := t
  have hkind : info.kind = .assignmentExpression := kind
  unfold lowerExpr
  simp only [hkind]
  exact left.required.bind fun _ _ => right.required.map

theorem unary_succeeds {operator : Tree} (kind : t.kind = .unaryExpression)
    (operatorField : t.childByField? "operator" = some operator)
    (mapped : operator.text = "typeof" ∨ operator.text ∈ Operator.unaryTable.map Prod.fst)
    (argument : FieldLowers o .value t "argument") : Succeeds (lowerExpr o t) := by
  have htoken := requiredField_eq_ok.mpr operatorField
  have hpresent : Succeeds (requiredField t "argument") :=
    requiredField_succeeds argument.choose_spec.1
  obtain ⟨info, children⟩ := t
  have hkind : info.kind = .unaryExpression := kind
  unfold lowerExpr
  simp only [hkind, htoken]
  refine (FailsBy.ok operator).bind fun token h => hpresent.bind fun _ _ => ?_
  obtain rfl := Except.ok.inj h
  rcases mapped with htypeof | hmem
  · rw [if_pos htypeof]
    exact argument.required.map
  · obtain ⟨symbol, hsymbol⟩ := Option.isSome_iff_exists.mp (isSome_lookup_of_mem hmem)
    have hsymbol : Operator.unary? operator.text = some symbol := hsymbol
    split
    · exact argument.required.map
    · simp only [hsymbol]
      exact argument.required.map

theorem ternary_succeeds (kind : t.kind = .ternaryExpression)
    (condition : FieldLowers o .value t "condition")
    (thenValue : FieldLowers o .value t "consequence")
    (elseValue : FieldLowers o .value t "alternative") : Succeeds (lowerExpr o t) := by
  obtain ⟨info, children⟩ := t
  have hkind : info.kind = .ternaryExpression := kind
  unfold lowerExpr
  simp only [hkind]
  exact condition.required.bind fun _ _ => thenValue.required.bind fun _ _ =>
    elseValue.required.map

theorem array_succeeds (kind : t.kind = .array) (elements : RowLowers o .element t) :
    Succeeds (lowerExpr o t) := by
  obtain ⟨info, children⟩ := t
  have hkind : info.kind = .array := kind
  unfold lowerExpr
  simp only [hkind]
  exact elements.gather.map

theorem object_succeeds (kind : t.kind = .object) (properties : RowLowers o .property t) :
    Succeeds (lowerExpr o t) := by
  obtain ⟨info, children⟩ := t
  have hkind : info.kind = .object := kind
  unfold lowerExpr
  simp only [hkind]
  exact properties.gather.map

/-! ## Functions -/

theorem Tree.NamePattern.succeeds (h : t.NamePattern) : Succeeds (Function.patternName t) := by
  unfold Function.patternName
  cases h with
  | name kind =>
    rw [kind]
    exact .ok _
  | rest kind operand identifier =>
    rw [kind, operand]
    simp only [identifier, if_true]
    exact .ok _

theorem Tree.NameParameter.succeeds (h : t.NameParameter) :
    Succeeds (Function.parameterName t) := by
  unfold Function.parameterName
  cases h with
  | bare pattern =>
    have hkind : t.kind = .identifier ∨ t.kind = .restPattern := by
      cases pattern with
      | name kind => exact .inl kind
      | rest kind => exact .inr kind
    rcases hkind with hkind | hkind <;> simp only [hkind] <;> exact pattern.succeeds
  | typed kind field name =>
    rcases kind with kind | kind
    all_goals
      simp only [kind, field, Option.map_some, required_some]
      exact name.succeeds

theorem function_succeeds {flavor : FunctionFlavor} {drop : Nat} (kind : t.kind ∈ functionKinds)
    (sync : t.hasToken "async" = false)
    (parameters : ∀ list, t.childByField? "parameters" = some list →
      ∀ p ∈ list.namedChildren, p.NameParameter)
    (body : FieldLowers o .functionBody t "body") : Succeeds (lowerFunction o flavor drop t) := by
  obtain ⟨c, hc, hbody⟩ := body
  have hnames : Succeeds (Function.parameterNames t) := by
    unfold Function.parameterNames
    split
    · exact .ok _
    · split
      · next list hlist =>
        refine .gather fun r hr => ?_
        obtain ⟨p, hp, rfl⟩ := List.mem_map.mp hr
        exact (parameters list hlist p hp).succeeds
      · exact .ok _
  simp only [functionKinds, List.mem_cons, List.not_mem_nil, or_false] at kind
  rw [lowerFunction_eq_assemble, hc, Option.map_some, assemble_plain kind sync]
  exact hnames.bind fun _ _ => hbody.map

theorem nested_succeeds (kind : t.kind = .arrowFunction ∨ t.kind = .functionExpression)
    (function : Succeeds (lowerFunction o .expression 0 t)) : Succeeds (lowerExpr o t) := by
  obtain ⟨info, children⟩ := t
  unfold lowerExpr
  rcases kind with kind | kind
  all_goals
    have hkind : info.kind = _ := kind
    simp only [hkind]
    exact function

/-! ## Statements -/

theorem operandStatement_succeeds
    (kind : t.kind = .expressionStatement ∨ t.kind = .throwStatement)
    (operand : OperandLowers o .value t) : Succeeds (lowerStatement o t) := by
  obtain ⟨info, children⟩ := t
  unfold lowerStatement
  rcases kind with kind | kind
  all_goals
    have hkind : info.kind = _ := kind
    simp only [hkind]
    exact operand.required.map

theorem statements_succeed (h : ∀ c ∈ t.namedChildren, Succeeds (lowerStatement o c)) :
    Succeeds (lowerStatements o t.children) := by
  rw [lowerStatements_eq]
  refine FailsBy.map (FailsBy.gather fun r hr => ?_)
  obtain ⟨c, hc, rfl⟩ := List.mem_map.mp hr
  exact h c hc

theorem block_succeeds (kind : t.kind = .statementBlock)
    (statements : Succeeds (lowerStatements o t.children)) : Succeeds (lowerStatement o t) := by
  obtain ⟨info, children⟩ := t
  have hkind : info.kind = .statementBlock := kind
  unfold lowerStatement
  simp only [hkind]
  exact statements.map

theorem declaration_succeeds
    (kind : t.kind = .lexicalDeclaration ∨ t.kind = .variableDeclaration)
    (declarators : ∀ c ∈ t.namedChildren, c.kind = .variableDeclarator →
      Succeeds (lowerAt o .declarator c)) : Succeeds (lowerStatement o t) := by
  obtain ⟨info, children⟩ := t
  have hgather : Succeeds (gather (lowerChildren o .declarator isDeclarator children)) := by
    rw [lowerChildren_eq]
    refine .gather fun r hr => ?_
    obtain ⟨c, hc, rfl⟩ := List.mem_map.mp hr
    obtain ⟨hmem, hdeclarator⟩ := List.mem_filter.mp hc
    rw [isDeclarator, Bool.and_eq_true] at hdeclarator
    exact declarators c (List.mem_filter.mpr ⟨hmem, hdeclarator.1⟩) (by simpa using hdeclarator.2)
  unfold lowerStatement
  rcases kind with kind | kind
  all_goals
    have hkind : info.kind = _ := kind
    simp only [hkind]
    exact hgather

theorem empty_succeeds (kind : t.kind = .emptyStatement) : Succeeds (lowerStatement o t) := by
  obtain ⟨info, children⟩ := t
  have hkind : info.kind = .emptyStatement := kind
  unfold lowerStatement
  simp only [hkind]
  exact .ok _

theorem returned_succeeds (kind : t.kind = .returnStatement)
    (value : ∀ e, t.firstNamedChild? = some e → Succeeds (lowerAt o .value e)) :
    Succeeds (lowerStatement o t) := by
  obtain ⟨info, children⟩ := t
  have hkind : info.kind = .returnStatement := kind
  have hvalue : Succeeds (optional (lowerChildren o .value Tree.isOperand children).head?) := by
    rw [head?_lowerChildren]
    refine .optional fun r hr => ?_
    obtain ⟨e, he, rfl⟩ := Option.map_eq_some_iff.mp hr
    exact value e (by rw [firstNamedChild?_eq]; exact he)
  unfold lowerStatement
  simp only [hkind]
  exact hvalue.map

theorem conditional_succeeds (kind : t.kind = .ifStatement)
    (condition : FieldLowers o .value t "condition")
    (branch : FieldLowers o .branch t "consequence")
    (otherwise : OptionalLowers o .elseClause t "alternative") :
    Succeeds (lowerStatement o t) := by
  obtain ⟨info, children⟩ := t
  have hkind : info.kind = .ifStatement := kind
  unfold lowerStatement
  simp only [hkind]
  exact condition.required.bind fun _ _ => branch.required.bind fun _ _ => otherwise.optional.map

theorem loop_succeeds (kind : t.kind = .whileStatement ∨ t.kind = .doStatement)
    (condition : FieldLowers o .value t "condition") (body : FieldLowers o .loopBody t "body") :
    Succeeds (lowerStatement o t) := by
  obtain ⟨info, children⟩ := t
  unfold lowerStatement
  rcases kind with kind | kind
  · have hkind : info.kind = .whileStatement := kind
    simp only [hkind]
    exact condition.required.bind fun _ _ => body.required.map
  · have hkind : info.kind = .doStatement := kind
    simp only [hkind]
    exact body.required.bind fun _ _ => condition.required.map

theorem forEach_succeeds {target : Tree} (kind : t.kind = .forInStatement)
    (sync : t.hasToken "await" = false) (targetField : t.childByField? "left" = some target)
    (name : target.kind = .identifier) (right : FieldLowers o .value t "right")
    (body : FieldLowers o .loopBody t "body") : Succeeds (lowerStatement o t) := by
  have htarget := requiredField_eq_ok.mpr targetField
  obtain ⟨info, children⟩ := t
  have hkind : info.kind = .forInStatement := kind
  unfold lowerStatement
  simp only [hkind, sync, htarget]
  refine (FailsBy.ok target).bind fun left h => ?_
  obtain rfl := Except.ok.inj h
  rw [if_pos name]
  refine right.required.bind fun _ _ => body.required.bind fun _ _ => ?_
  split <;> exact .ok _

theorem jump_succeeds (kind : t.kind = .breakStatement ∨ t.kind = .continueStatement)
    (unlabeled : t.firstNamedChild? = none) : Succeeds (lowerStatement o t) := by
  obtain ⟨info, children⟩ := t
  unfold lowerStatement
  rcases kind with kind | kind
  all_goals
    have hkind : info.kind = _ := kind
    simp only [hkind, unlabeled]
    exact .ok _

theorem tried_succeeds (kind : t.kind = .tryStatement) (body : FieldLowers o .block t "body")
    (handler : OptionalLowers o .catchClause t "handler")
    (finalizer : OptionalLowers o .finallyClause t "finalizer") :
    Succeeds (lowerStatement o t) := by
  obtain ⟨info, children⟩ := t
  have hkind : info.kind = .tryStatement := kind
  unfold lowerStatement
  simp only [hkind]
  exact body.required.bind fun _ _ => handler.optional.bind fun _ _ => finalizer.optional.map

theorem functionStatement_succeeds {name : Tree} (kind : t.kind = .functionDeclaration)
    (nameField : t.childByField? "name" = some name)
    (function : Succeeds (lowerFunction o .expression 0 t)) : Succeeds (lowerStatement o t) := by
  have hname : Succeeds (requiredField t "name") := requiredField_succeeds nameField
  obtain ⟨info, children⟩ := t
  have hkind : info.kind = .functionDeclaration := kind
  unfold lowerStatement
  simp only [hkind]
  exact hname.bind fun _ _ => function.map

/-! ## Positions -/

/-- What lowers as an expression is no spread. -/
theorem plainElement_succeeds (h : Succeeds (lowerExpr o t)) : Succeeds (lowerAt o .element t) := by
  obtain ⟨info, children⟩ := t
  simp only [lowerAt, lowerChildren, if_pos, List.head?_cons, required_some]
  split
  · next hspread =>
    unfold lowerExpr at h
    simp only [hspread] at h
    exact (h _ rfl).elim
  · exact h

theorem spread_succeeds (kind : t.kind = .spreadElement) (operand : OperandLowers o .value t) :
    Succeeds (lowerAt o .element t) ∧ Succeeds (lowerAt o .property t) := by
  obtain ⟨info, children⟩ := t
  have hkind : info.kind = .spreadElement := kind
  constructor
  all_goals
    simp only [lowerAt, lowerChildren, if_pos, List.head?_cons, required_some, hkind]
    exact operand.required.map

theorem pair_succeeds (kind : t.kind = .pair) (key : FieldLowers o .propertyName t "key")
    (value : FieldLowers o .value t "value") : Succeeds (lowerAt o .property t) := by
  obtain ⟨info, children⟩ := t
  have hkind : info.kind = .pair := kind
  simp only [lowerAt, lowerChildren, if_pos, List.head?_cons, required_some, hkind]
  exact key.required.bind fun _ _ => value.required.map

theorem shorthand_succeeds (kind : t.kind = .shorthandPropertyIdentifier) :
    Succeeds (lowerAt o .property t) := by
  have hvalue : Succeeds (lowerExpr o t) := name_succeeds (.inr kind)
  obtain ⟨info, children⟩ := t
  have hkind : info.kind = .shorthandPropertyIdentifier := kind
  simp only [lowerAt, lowerChildren, if_pos, List.head?_cons, required_some, hkind]
  exact hvalue.map

theorem plainName_succeeds
    (kind : t.kind ∈ [Kind.propertyIdentifier, .stringLiteral, .numberLiteral]) :
    Succeeds (lowerAt o .propertyName t) := by
  obtain ⟨info, children⟩ := t
  have hkind : info.kind ∈ [Kind.propertyIdentifier, .stringLiteral, .numberLiteral] := kind
  simp only [List.mem_cons, List.not_mem_nil, or_false] at hkind
  simp only [lowerAt, lowerChildren, if_pos, List.head?_cons, required_some, plainPropertyName]
  rcases hkind with hkind | hkind | hkind
  all_goals
    simp only [hkind]
    exact .ok _

theorem computedName_succeeds (kind : t.kind = .computedPropertyName)
    (operand : OperandLowers o .value t) : Succeeds (lowerAt o .propertyName t) := by
  obtain ⟨info, children⟩ := t
  have hkind : info.kind = .computedPropertyName := kind
  simp only [lowerAt, lowerChildren, if_pos, List.head?_cons, required_some, hkind]
  exact operand.required.map

theorem substitution_succeeds (operand : OperandLowers o .value t) :
    Succeeds (lowerAt o .substitution t) := by
  obtain ⟨info, children⟩ := t
  simp only [lowerAt, lowerChildren, if_pos, List.head?_cons, required_some]
  exact operand.required

theorem declarator_succeeds {name : Tree} (nameField : t.childByField? "name" = some name)
    (identifier : name.kind = .identifier) (value : OptionalLowers o .value t "value") :
    Succeeds (lowerAt o .declarator t) := by
  have hname := requiredField_eq_ok.mpr nameField
  obtain ⟨info, children⟩ := t
  simp only [lowerAt, lowerChildren, if_pos, List.head?_cons, required_some, hname]
  refine (FailsBy.ok name).bind fun found h => ?_
  obtain rfl := Except.ok.inj h
  rw [if_pos identifier]
  exact value.optional.map

theorem elseClause_succeeds (operand : OperandLowers o .branch t) :
    Succeeds (lowerAt o .elseClause t) := by
  obtain ⟨info, children⟩ := t
  simp only [lowerAt, lowerChildren, if_pos, List.head?_cons, required_some]
  exact operand.required

theorem catchClause_succeeds
    (binding : ∀ p, t.childByField? "parameter" = some p → p.kind = .identifier)
    (body : FieldLowers o .block t "body") : Succeeds (lowerAt o .catchClause t) := by
  have htarget : Succeeds (catchVariable t) := by
    unfold catchVariable
    split
    · exact .ok _
    · next p hp =>
      rw [if_pos (binding p hp)]
      exact .ok _
  obtain ⟨info, children⟩ := t
  simp only [lowerAt, lowerChildren, if_pos, List.head?_cons, required_some]
  exact htarget.bind fun _ _ => body.required.map

theorem finallyClause_succeeds (body : FieldLowers o .block t "body") :
    Succeeds (lowerAt o .finallyClause t) := by
  obtain ⟨info, children⟩ := t
  simp only [lowerAt, lowerChildren, if_pos, List.head?_cons, required_some]
  exact body.required

theorem branch_succeeds (h : Succeeds (lowerStatement o t)) : Succeeds (lowerAt o .branch t) := by
  obtain ⟨info, children⟩ := t
  simp only [lowerAt, lowerChildren, if_pos, List.head?_cons, required_some]
  exact h.map

theorem blockPosition_succeeds (h : Succeeds (lowerStatements o t.children)) :
    Succeeds (lowerAt o .block t) := by
  obtain ⟨info, children⟩ := t
  simp only [lowerAt, lowerChildren, if_pos, List.head?_cons, required_some]
  exact FailsBy.map h

/-- A body is a block whatever it is written as, so a statement will do. -/
theorem loopBody_succeeds (h : Succeeds (lowerStatement o t)) :
    Succeeds (lowerAt o .loopBody t) := by
  obtain ⟨info, children⟩ := t
  simp only [lowerAt, lowerChildren, if_pos, List.head?_cons, required_some]
  split
  · next hblock =>
    unfold lowerStatement at h
    simp only [hblock] at h
    intro f hf
    refine h f ?_
    cases hlowered : lowerStatements o children with
    | error g =>
      rw [hlowered] at hf
      exact congrArg Except.error (Except.error.inj hf)
    | ok ns =>
      rw [hlowered] at hf
      cases hf
  · exact h.map

theorem blockBody_succeeds (kind : t.kind = .statementBlock)
    (h : Succeeds (lowerStatements o t.children)) : Succeeds (lowerAt o .functionBody t) := by
  obtain ⟨info, children⟩ := t
  have hkind : info.kind = .statementBlock := kind
  simp only [lowerAt, lowerChildren, if_pos, List.head?_cons, required_some, hkind]
  exact FailsBy.map h

/-- What lowers as an expression is no block. -/
theorem expressionBody_succeeds (h : Succeeds (lowerExpr o t)) :
    Succeeds (lowerAt o .functionBody t) := by
  obtain ⟨info, children⟩ := t
  simp only [lowerAt, lowerChildren, if_pos, List.head?_cons, required_some]
  split
  · next hblock =>
    unfold lowerExpr at h
    simp only [hblock] at h
    exact (h _ rfl).elim
  · exact h.map

/-! ## Acceptance -/

def Accepted (o : Oracle) : Phrase → Tree → Prop
  | .expression, t => Succeeds (lowerExpr o t)
  | .element, t => Succeeds (lowerAt o .element t)
  | .property, t => Succeeds (lowerAt o .property t)
  | .propertyName, t => Succeeds (lowerAt o .propertyName t)
  | .substitution, t => Succeeds (lowerAt o .substitution t)
  | .statement, t => Succeeds (lowerStatement o t)
  | .block, t => t.kind = .statementBlock ∧ Succeeds (lowerStatements o t.children)
  | .declarator, t => Succeeds (lowerAt o .declarator t)
  | .elseClause, t => Succeeds (lowerAt o .elseClause t)
  | .catchClause, t => Succeeds (lowerAt o .catchClause t)
  | .finallyClause, t => Succeeds (lowerAt o .finallyClause t)
  | .body, t => Succeeds (lowerAt o .functionBody t)
  | .function, t => ∀ flavor drop, Succeeds (lowerFunction o flavor drop t)

section

variable {t c : Tree} {name : String}

theorem field_lowers (hc : t.childByField? name = some c) (h : Accepted o .expression c) :
    FieldLowers o .value t name :=
  ⟨c, hc, by rw [lowerAt_value]; exact h⟩

theorem operand_lowers (hc : t.firstNamedChild? = some c) (h : Accepted o .expression c) :
    OperandLowers o .value t :=
  ⟨c, hc, by rw [lowerAt_value]; exact h⟩

end

/-- Where no callee is overloaded, whatever the grammar derives is accepted. -/
theorem accepted (signed : ∀ n, Succeeds (Arguments.usableSignature o n)) {φ : Phrase} {t : Tree}
    (h : Reflectable φ t) : Accepted o φ t := by
  induction h with
  | identifier kind => exact name_succeeds (.inl kind)
  | literal kind => exact literal_succeeds kind
  | template kind inside _ ih => exact template_succeeds kind inside ih
  | wrapper kind operand _ ih => exact wrapper_succeeds kind (operand_lowers operand ih)
  | assertion kind operand _ ih =>
    exact assertion_succeeds kind operand (by rw [lowerAt_value]; exact ih)
  | member kind plain objectField propertyField _ ih =>
    exact member_succeeds kind plain (field_lowers objectField ih) propertyField
  | subscript kind plain objectField indexField _ _ ihobject ihindex =>
    exact subscript_succeeds kind plain (field_lowers objectField ihobject)
      (field_lowers indexField ihindex)
  | call kind plain calleeField list _ _ ihcallee iharguments =>
    exact call_succeeds kind plain (signed _) (field_lowers calleeField ihcallee) list iharguments
  | construction kind calleeField _ _ ihcallee iharguments =>
    exact construction_succeeds kind (signed _) (field_lowers calleeField ihcallee) iharguments
  | binary kind operatorField mapped leftField rightField _ _ ihleft ihright =>
    exact binary_succeeds kind operatorField mapped (field_lowers leftField ihleft)
      (field_lowers rightField ihright)
  | assignment kind leftField rightField _ _ ihleft ihright =>
    exact assignment_succeeds kind (field_lowers leftField ihleft)
      (field_lowers rightField ihright)
  | unary kind operatorField mapped argumentField _ ih =>
    exact unary_succeeds kind operatorField mapped (field_lowers argumentField ih)
  | ternary kind conditionField thenField elseField _ _ _ ihcondition ihthen ihelse =>
    exact ternary_succeeds kind (field_lowers conditionField ihcondition)
      (field_lowers thenField ihthen) (field_lowers elseField ihelse)
  | array kind _ ih => exact array_succeeds kind ih
  | object kind _ ih => exact object_succeeds kind ih
  | nested kind _ ih => exact nested_succeeds kind (ih .expression 0)
  | plainElement _ ih => exact plainElement_succeeds ih
  | spreadElement kind operand _ ih => exact (spread_succeeds kind (operand_lowers operand ih)).1
  | pair kind keyField valueField _ _ ihkey ihvalue =>
    exact pair_succeeds kind ⟨_, keyField, ihkey⟩ (field_lowers valueField ihvalue)
  | shorthand kind => exact shorthand_succeeds kind
  | spreadProperty kind operand _ ih => exact (spread_succeeds kind (operand_lowers operand ih)).2
  | plainName kind => exact plainName_succeeds kind
  | computedName kind operand _ ih => exact computedName_succeeds kind (operand_lowers operand ih)
  | substitution operand _ ih => exact substitution_succeeds (operand_lowers operand ih)
  | expressionStatement kind operand _ ih =>
    exact operandStatement_succeeds (.inl kind) (operand_lowers operand ih)
  | blockStatement _ ih => exact block_succeeds ih.1 ih.2
  | declaration kind _ ih => exact declaration_succeeds kind ih
  | empty kind => exact empty_succeeds kind
  | returned kind _ ih =>
    exact returned_succeeds kind fun e he => by rw [lowerAt_value]; exact ih e he
  | conditional kind conditionField branchField _ _ _ ihcondition ihbranch ihotherwise =>
    exact conditional_succeeds kind (field_lowers conditionField ihcondition)
      ⟨_, branchField, branch_succeeds ihbranch⟩ ihotherwise
  | loop kind conditionField bodyField _ _ ihcondition ihbody =>
    exact loop_succeeds kind (field_lowers conditionField ihcondition)
      ⟨_, bodyField, loopBody_succeeds ihbody⟩
  | forEach kind sync targetField name rightField bodyField _ _ ihright ihbody =>
    exact forEach_succeeds kind sync targetField name (field_lowers rightField ihright)
      ⟨_, bodyField, loopBody_succeeds ihbody⟩
  | jump kind unlabeled => exact jump_succeeds kind unlabeled
  | tried kind bodyField _ _ _ ihbody ihhandler ihfinalizer =>
    exact tried_succeeds kind ⟨_, bodyField, blockPosition_succeeds ihbody.2⟩ ihhandler ihfinalizer
  | thrown kind operand _ ih => exact operandStatement_succeeds (.inr kind) (operand_lowers operand ih)
  | functionStatement kind nameField _ ih =>
    exact functionStatement_succeeds kind nameField (ih .expression 0)
  | block kind _ ih => exact ⟨kind, statements_succeed ih⟩
  | declarator nameField identifier _ ih =>
    exact declarator_succeeds nameField identifier fun e he => by
      rw [lowerAt_value]
      exact ih e he
  | elseClause operand _ ih => exact elseClause_succeeds ⟨_, operand, branch_succeeds ih⟩
  | catchClause bodyField binding _ ih =>
    exact catchClause_succeeds binding ⟨_, bodyField, blockPosition_succeeds ih.2⟩
  | finallyClause bodyField _ ih =>
    exact finallyClause_succeeds ⟨_, bodyField, blockPosition_succeeds ih.2⟩
  | expressionBody _ ih => exact expressionBody_succeeds ih
  | blockBody _ ih => exact blockBody_succeeds ih.1 ih.2
  | function kind sync parameters bodyField _ ih =>
    exact fun _ _ => function_succeeds kind sync parameters ⟨_, bodyField, ih⟩

/-- Where nothing is typed, every function of the documented subset lowers, so that none is
reflected as an error. -/
theorem documented_functions_accepted {t : Tree} (h : Reflectable .function t) :
    (∀ flavor drop, ∃ n, lowerFunction .noTypes flavor drop t = .ok n) ∧
      ∀ drop, ∃ parameters body,
        lowerReflected .noTypes drop t = .functionDecl parameters body := by
  have hsigned (n : Tree) : Succeeds (Arguments.usableSignature .noTypes n) := by
    rw [Arguments.usableSignature]
    cases n.callee? <;> exact .ok none
  have hlowers (flavor : FunctionFlavor) (drop : Nat) :
      ∃ n, lowerFunction .noTypes flavor drop t = .ok n :=
    (accepted hsigned h flavor drop).exists_ok
  refine ⟨hlowers, fun drop => ?_⟩
  obtain ⟨n, hn⟩ := hlowers .declaration drop
  obtain ⟨names, body, -, rfl⟩ := assemble_function_iff.mp hn
  exact ⟨_, body, by rw [lowerReflected, hn]; rfl⟩

def letter (kind : Kind) (field : Option String) (b : UInt32) (text : String) : Tree :=
  .node ⟨kind, field, true, ⟨b, b + 1⟩, text⟩ []

/-- The tree of `(x, ...y) => x ? [...y] : x.f(typeof y)`. -/
def spreadOrCall : Tree :=
  .node ⟨.arrowFunction, none, true, ⟨0, 39⟩, "(x, ...y) => x ? [...y] : x.f(typeof y)"⟩
    [.node ⟨.formalParameters, some "parameters", true, ⟨0, 9⟩, "(x, ...y)"⟩
        [.node ⟨.requiredParameter, none, true, ⟨1, 2⟩, "x"⟩
            [letter .identifier (some "pattern") 1 "x"],
          .node ⟨.requiredParameter, none, true, ⟨4, 8⟩, "...y"⟩
            [.node ⟨.restPattern, some "pattern", true, ⟨4, 8⟩, "...y"⟩
              [.node ⟨.unknown "...", none, false, ⟨4, 7⟩, "..."⟩ [],
                letter .identifier none 7 "y"]]],
      .node ⟨.unknown "=>", none, false, ⟨10, 12⟩, "=>"⟩ [],
      .node ⟨.ternaryExpression, some "body", true, ⟨13, 39⟩, "x ? [...y] : x.f(typeof y)"⟩
        [letter .identifier (some "condition") 13 "x",
          .node ⟨.array, some "consequence", true, ⟨17, 23⟩, "[...y]"⟩
            [.node ⟨.spreadElement, none, true, ⟨18, 22⟩, "...y"⟩
              [.node ⟨.unknown "...", none, false, ⟨18, 21⟩, "..."⟩ [],
                letter .identifier none 21 "y"]],
          .node ⟨.callExpression, some "alternative", true, ⟨26, 39⟩, "x.f(typeof y)"⟩
            [.node ⟨.memberExpression, some "function", true, ⟨26, 29⟩, "x.f"⟩
                [letter .identifier (some "object") 26 "x",
                  .node ⟨.unknown ".", none, false, ⟨27, 28⟩, "."⟩ [],
                  letter .propertyIdentifier (some "property") 28 "f"],
              .node ⟨.arguments, some "arguments", true, ⟨29, 39⟩, "(typeof y)"⟩
                [.node ⟨.unaryExpression, none, true, ⟨30, 38⟩, "typeof y"⟩
                  [.node ⟨.unknown "typeof", some "operator", false, ⟨30, 36⟩, "typeof"⟩ [],
                    letter .identifier (some "argument") 37 "y"]]]]]

theorem spreadOrCall_accepted :
    Reflectable .function spreadOrCall ∧
      ∃ parameters body,
        lowerReflected .noTypes 0 spreadOrCall = .functionDecl parameters body := by
  have hname (field : Option String) (b : UInt32) (text : String) :
      Reflectable .expression (letter .identifier field b text) := .identifier rfl
  have hreflectable : Reflectable .function spreadOrCall := by
    refine .function (by decide) rfl ?_ rfl (.expressionBody (.ternary rfl rfl rfl rfl
      (hname _ _ _) (.array rfl ?_) (.call rfl ?_ rfl rfl
        (.member rfl ?_ rfl rfl (hname _ _ _)) ?_)))
    · intro list hlist
      obtain rfl := Option.some.inj hlist
      refine List.forall_mem_cons.mpr ⟨?_, List.forall_mem_singleton.mpr ?_⟩
      · exact .typed (.inl rfl) rfl (.name rfl)
      · exact .typed (.inl rfl) rfl (.rest rfl rfl rfl)
    · exact List.forall_mem_singleton.mpr (.spreadElement rfl rfl (hname _ _ _))
    · unfold Tree.Unchained
      decide
    · unfold Tree.Unchained
      decide
    · exact List.forall_mem_singleton.mpr
        (.plainElement (.unary rfl rfl (.inl rfl) rfl (hname _ _ _)))
  exact ⟨hreflectable, (documented_functions_accepted hreflectable).2 0⟩

end Reify
