/-
What lowers, and what it lowers to.

`ExprForm o t n` says how an expression `t` may come to be lowered to `n`: its kind, what was
checked of it, and the nodes its parts lower to.  `StatementForm` and `PartForm` say the same
of statements and of the positions that wrap either.  None of them recurs: a form speaks of the
parts by what lowering makes of them, so a property of all lowered nodes is an induction on the
syntax tree with one case for each form.  Every success has a form (`lowerExpr_form`,
`lowerStatement_form`, `lowerAt_form`).
-/
import Reify.Proofs.Lowering.Outcome

namespace Reify

open Lowering

/-! ## Forms -/

section Forms

variable (o : Oracle) (t : Tree)

def FieldForm (pos : Position) (name : String) (n : Node) : Prop :=
  ∃ c, t.childByField? name = some c ∧ lowerAt o pos c = .ok n

def OperandForm (pos : Position) (n : Node) : Prop :=
  ∃ c, t.firstNamedChild? = some c ∧ lowerAt o pos c = .ok n

def OptionalForm (pos : Position) (name : String) (n? : Option Node) : Prop :=
  Option.Rel (fun c n => lowerAt o pos c = .ok n) (t.childByField? name) n?

def ListForm (pos : Position) (p : Tree → Bool) (ns : List Node) : Prop :=
  List.Forall₂ (fun c n => lowerAt o pos c = .ok n) (t.children.filter p) ns

def StatementsForm (ns : List Node) : Prop :=
  ∃ nss, List.Forall₂ (fun c ms => lowerStatement o c = .ok ms) t.namedChildren nss ∧
    ns = nss.flatten

/-- A function that is no generator and not asynchronous, whose parameters bind `names` and
whose body lowers to `b`. -/
structure FunctionForm (names : List String) (b : Node) : Prop where
  kind : t.kind = .arrowFunction ∨ t.kind = .functionExpression ∨ t.kind = .functionDeclaration
  sync : t.hasToken "async" = false
  parameters : Function.parameterNames t = .ok names
  body : FieldForm o t .functionBody "body" b

def literalOf? (i : Tree.Info) : Option Node :=
  match i.kind with
  | .undefinedLiteral => some .undefinedLiteralExpr
  | .nullLiteral => some .nullLiteralExpr
  | .trueLiteral => some (.booleanLiteralExpr true)
  | .falseLiteral => some (.booleanLiteralExpr false)
  | .numberLiteral => some (.numberLiteralExpr i.text)
  | .stringLiteral => some (.stringLiteralExpr i.text)
  | _ => none

/-- The kinds that add nothing to the expression they hold, type assertions aside. -/
def Tree.Kind.isWrapper : Tree.Kind → Bool
  | .parenthesizedExpression | .asExpression | .satisfiesExpression | .nonNullExpression => true
  | _ => false

def Tree.Kind.isName : Tree.Kind → Bool
  | .identifier | .shorthandPropertyIdentifier => true
  | _ => false

inductive ExprForm : Node → Prop
  | undefinedName (kind : t.kind.isName = true) (text : t.text = "undefined") :
    ExprForm .undefinedLiteralExpr
  | name (kind : t.kind.isName = true) (text : t.text ≠ "undefined")
      (untyped : o.resolveReference? t = none) : ExprForm (.identifier t.text)
  | nameReference {n} (kind : t.kind.isName = true) (text : t.text ≠ "undefined")
      (reference : o.resolveReference? t = some n) : ExprForm n
  | literal {n} (found : literalOf? t.info = some n) : ExprForm n
  | template {n} (kind : t.kind = .templateString)
      (assembled : Template.assemble t.info
        (((t.children.filter isSubstitution).map Tree.span).zip
          ((t.children.filter isSubstitution).map (lowerAt o .substitution))) = .ok n) :
    ExprForm n
  | wrapper {n} (kind : t.kind.isWrapper = true) (operand : OperandForm o t .value n) :
    ExprForm n
  | assertion {c n} (kind : t.kind = .typeAssertion) (operand : t.lastNamedChild? = some c)
      (lowered : lowerAt o .value c = .ok n) : ExprForm n
  | accessReference {n} (kind : t.kind = .memberExpression ∨ t.kind = .subscriptExpression)
      (plain : isOptionalChain t = false) (reference : o.resolveReference? t = some n) :
    ExprForm n
  | member {n p} (kind : t.kind = .memberExpression) (plain : isOptionalChain t = false)
      (untyped : o.resolveReference? t = none) (object : FieldForm o t .value "object" n)
      (property : t.childByField? "property" = some p) :
    ExprForm (.propAccessExpr n p.text (o.typeSnapshot? t))
  | subscript {n i} (kind : t.kind = .subscriptExpression) (plain : isOptionalChain t = false)
      (untyped : o.resolveReference? t = none) (object : FieldForm o t .value "object" n)
      (index : FieldForm o t .value "index" i) :
    ExprForm (.elementAccessExpr n i (o.typeSnapshot? t))
  | call {n args} (kind : t.kind = .callExpression) (plain : isOptionalChain t = false)
      (untagged : rejectTaggedTemplate t = .ok ()) (callee : FieldForm o t .value "function" n)
      (bound : bindArguments o t = .ok args) : ExprForm (.callExpr n args)
  | new {n args} (kind : t.kind = .newExpression)
      (list : (t.childByField? "arguments").isSome = true)
      (bound : bindArguments o t = .ok args) (callee : FieldForm o t .value "constructor" n) :
    ExprForm (.newExpr n args)
  | newBare {n} (kind : t.kind = .newExpression) (list : t.childByField? "arguments" = none)
      (callee : FieldForm o t .value "constructor" n) : ExprForm (.newExpr n [])
  | binary {token symbol n m} (kind : t.kind = .binaryExpression)
      (operator : t.childByField? "operator" = some token)
      (known : Operator.binary? token.text = some symbol)
      (left : FieldForm o t .value "left" n) (right : FieldForm o t .value "right" m) :
    ExprForm (.binaryExpr n symbol m)
  | assignment {n m} (kind : t.kind = .assignmentExpression)
      (left : FieldForm o t .value "left" n) (right : FieldForm o t .value "right" m) :
    ExprForm (.binaryExpr n "=" m)
  | typeof {token n} (kind : t.kind = .unaryExpression)
      (operator : t.childByField? "operator" = some token) (text : token.text = "typeof")
      (operand : FieldForm o t .value "argument" n) : ExprForm (.typeOfExpr n)
  | unary {token symbol n} (kind : t.kind = .unaryExpression)
      (operator : t.childByField? "operator" = some token) (text : token.text ≠ "typeof")
      (known : Operator.unary? token.text = some symbol)
      (operand : FieldForm o t .value "argument" n) : ExprForm (.unaryExpr symbol n)
  | ternary {c n m} (kind : t.kind = .ternaryExpression)
      (condition : FieldForm o t .value "condition" c)
      (thenValue : FieldForm o t .value "consequence" n)
      (elseValue : FieldForm o t .value "alternative" m) : ExprForm (.conditionExpr c n m)
  | array {ns} (kind : t.kind = .array) (items : ListForm o t .element Tree.isOperand ns) :
    ExprForm (.arrayLiteralExpr ns)
  | object {ns} (kind : t.kind = .object)
      (properties : ListForm o t .property Tree.isOperand ns) :
    ExprForm (.objectLiteralExpr ns)
  | function {names b} (kind : t.kind = .arrowFunction ∨ t.kind = .functionExpression)
      (function : FunctionForm o t names b) :
    ExprForm (.functionExpr (names.map .parameterDecl) b)

inductive StatementForm : List Node → Prop
  | expression {n} (kind : t.kind = .expressionStatement) (operand : OperandForm o t .value n) :
    StatementForm [.exprStmt n]
  | block {ns} (kind : t.kind = .statementBlock) (statements : StatementsForm o t ns) :
    StatementForm [.blockStmt ns]
  | declaration {ns} (kind : t.kind = .lexicalDeclaration ∨ t.kind = .variableDeclaration)
      (declarators : ListForm o t .declarator isDeclarator ns) : StatementForm ns
  | empty (kind : t.kind = .emptyStatement) : StatementForm []
  | return {n?} (kind : t.kind = .returnStatement)
      (operand : Option.Rel (fun c n => lowerAt o .value c = .ok n) t.firstNamedChild? n?) :
    StatementForm [.returnStmt (n?.getD .undefinedLiteralExpr)]
  | if {c n m?} (kind : t.kind = .ifStatement) (condition : FieldForm o t .value "condition" c)
      (thenBranch : FieldForm o t .branch "consequence" n)
      (elseBranch : OptionalForm o t .elseClause "alternative" m?) :
    StatementForm [.ifStmt c n m?]
  | while {c b} (kind : t.kind = .whileStatement) (condition : FieldForm o t .value "condition" c)
      (body : FieldForm o t .loopBody "body" b) : StatementForm [.whileStmt c b]
  | do {c b} (kind : t.kind = .doStatement) (body : FieldForm o t .loopBody "body" b)
      (condition : FieldForm o t .value "condition" c) : StatementForm [.doStmt b c]
  | forOf {left n b} (kind : t.kind = .forInStatement) (sync : t.hasToken "await" = false)
      (target : t.childByField? "left" = some left) (name : left.kind = .identifier)
      (right : FieldForm o t .value "right" n) (body : FieldForm o t .loopBody "body" b)
      (token : t.hasToken "of" = true) :
    StatementForm [.forOfStmt (loopVariable t left.text) n b]
  | forIn {left n b} (kind : t.kind = .forInStatement) (sync : t.hasToken "await" = false)
      (target : t.childByField? "left" = some left) (name : left.kind = .identifier)
      (right : FieldForm o t .value "right" n) (body : FieldForm o t .loopBody "body" b)
      (token : t.hasToken "of" = false) :
    StatementForm [.forInStmt (loopVariable t left.text) n b]
  | break (kind : t.kind = .breakStatement) (label : t.firstNamedChild? = none) :
    StatementForm [.breakStmt]
  | continue (kind : t.kind = .continueStatement) (label : t.firstNamedChild? = none) :
    StatementForm [.continueStmt]
  | try {b h? f?} (kind : t.kind = .tryStatement) (body : FieldForm o t .block "body" b)
      (handler : OptionalForm o t .catchClause "handler" h?)
      (finalizer : OptionalForm o t .finallyClause "finalizer" f?) :
    StatementForm [.tryStmt b h? f?]
  | throw {n} (kind : t.kind = .throwStatement) (operand : OperandForm o t .value n) :
    StatementForm [.throwStmt n]
  | function {name names b} (kind : t.kind = .functionDeclaration)
      (named : t.childByField? "name" = some name) (function : FunctionForm o t names b) :
    StatementForm [.variableStmt name.text
      (some (.functionExpr (names.map .parameterDecl) b))]

inductive PartForm : Position → Node → Prop
  | value {n} (expr : lowerExpr o t = .ok n) : PartForm .value n
  | spread {n} (kind : t.kind = .spreadElement) (operand : OperandForm o t .value n) :
    PartForm .element (.spreadElementExpr n)
  | element {n} (kind : t.kind ≠ .spreadElement) (expr : lowerExpr o t = .ok n) :
    PartForm .element n
  | pair {k n} (kind : t.kind = .pair) (key : FieldForm o t .propertyName "key" k)
      (value : FieldForm o t .value "value" n) : PartForm .property (.propAssignExpr k n)
  | shorthand {n} (kind : t.kind = .shorthandPropertyIdentifier)
      (expr : lowerExpr o t = .ok n) :
    PartForm .property (.propAssignExpr (.identifier t.text) n)
  | spreadProperty {n} (kind : t.kind = .spreadElement) (operand : OperandForm o t .value n) :
    PartForm .property (.spreadAssignExpr n)
  | computedName {n} (kind : t.kind = .computedPropertyName)
      (operand : OperandForm o t .value n) : PartForm .propertyName (.computedPropertyNameExpr n)
  | plainName {n} (name : plainPropertyName t.info = .ok n) : PartForm .propertyName n
  | substitution {n} (operand : OperandForm o t .value n) : PartForm .substitution n
  | blockBody {ns} (kind : t.kind = .statementBlock) (statements : StatementsForm o t ns) :
    PartForm .functionBody (.blockStmt ns)
  | exprBody {n} (kind : t.kind ≠ .statementBlock) (expr : lowerExpr o t = .ok n) :
    PartForm .functionBody (.blockStmt [.returnStmt n])
  | block {ns} (statements : StatementsForm o t ns) : PartForm .block (.blockStmt ns)
  | blockLoop {ns} (kind : t.kind = .statementBlock) (statements : StatementsForm o t ns) :
    PartForm .loopBody (.blockStmt ns)
  | statementLoop {ns} (kind : t.kind ≠ .statementBlock) (statement : lowerStatement o t = .ok ns) :
    PartForm .loopBody (.blockStmt ns)
  | branch {ns} (statement : lowerStatement o t = .ok ns) : PartForm .branch (single ns)
  | elseClause {n} (operand : OperandForm o t .branch n) : PartForm .elseClause n
  | declarator {name n?} (named : t.childByField? "name" = some name)
      (plain : name.kind = .identifier) (value : OptionalForm o t .value "value" n?) :
    PartForm .declarator (.variableStmt name.text n?)
  | catchClause {v? b} (target : catchVariable t = .ok v?) (body : FieldForm o t .block "body" b) :
    PartForm .catchClause (.catchClause v? b)
  | finallyClause {b} (body : FieldForm o t .block "body" b) : PartForm .finallyClause b

end Forms

/-! ## Every success has a form -/

variable {o : Oracle} {info : Tree.Info} {children : List Tree} {t : Tree}

theorem required_field_iff {pos : Position} {name : String} {n : Node} :
    required info (lowerChildren o pos (Tree.inField name) children).head? = .ok n ↔
      FieldForm o (.node info children) pos name n := by
  rw [head?_lowerChildren]
  exact required_map_eq_ok

theorem required_operand_iff {pos : Position} {n : Node} :
    required info (lowerChildren o pos Tree.isOperand children).head? = .ok n ↔
      OperandForm o (.node info children) pos n := by
  rw [head?_lowerChildren, OperandForm, Tree.firstNamedChild?_eq]
  exact required_map_eq_ok

theorem optional_field_iff {pos : Position} {name : String} {n? : Option Node} :
    Lowering.optional (lowerChildren o pos (Tree.inField name) children).head? = .ok n? ↔
      OptionalForm o (.node info children) pos name n? := by
  rw [head?_lowerChildren]
  exact optional_map_eq_ok

theorem gather_list_iff {pos : Position} {p : Tree → Bool} {ns : List Node} :
    gather (lowerChildren o pos p children) = .ok ns ↔ ListForm o (.node info children) pos p ns := by
  rw [lowerChildren_eq]
  exact gather_map_eq_ok

theorem lowerStatements_iff {ns : List Node} :
    lowerStatements o children = .ok ns ↔ StatementsForm o (.node info children) ns := by
  rw [lowerStatements_eq, StatementsForm, Tree.namedChildren, Tree.children]
  cases h : gather ((children.filter Tree.isOperand).map (lowerStatement o)) with
  | error e =>
    constructor
    · intro h'
      cases h'
    · rintro ⟨nss, hnss, -⟩
      rw [gather_map_eq_ok.mpr hnss] at h
      cases h
  | ok nss =>
    constructor
    · intro h'
      exact ⟨nss, gather_map_eq_ok.mp h, (Except.ok.inj h').symm⟩
    · rintro ⟨mss, hmss, rfl⟩
      rw [gather_map_eq_ok.mpr hmss] at h
      rw [Except.ok.inj h]
      rfl

theorem assemble_function_iff {flavor : FunctionFlavor} {drop : Nat} {n : Node} :
    Function.assemble flavor drop (.node info children)
        (lowerChildren o .functionBody (Tree.inField "body") children).head? = .ok n ↔
      ∃ names b, FunctionForm o (.node info children) names b ∧
        n = flavor.build ((names.drop drop).map .parameterDecl) b := by
  change lowerFunction o flavor drop (.node info children) = .ok n ↔ _
  rw [lowerFunction_eq_assemble]
  generalize Tree.node info children = t
  constructor
  · intro h
    unfold Function.assemble at h
    split at h
    case h_6 => cases h
    case h_4 => cases h
    case h_5 => cases h
    all_goals
      next hkind =>
        cases hbody : t.childByField? "body" with
        | none => rw [hbody] at h; cases h
        | some c =>
          rw [hbody, Option.map_some] at h
          dsimp only at h
          split at h
          · cases h
          · next hasync =>
            obtain ⟨names, hnames, h⟩ := bind_eq_ok.mp h
            obtain ⟨b, hb, h⟩ := bind_eq_ok.mp h
            rw [Bool.not_eq_true] at hasync
            exact ⟨names, b, ⟨by simp [hkind], hasync, hnames, c, hbody, hb⟩,
              (pure_eq_ok.mp h).symm⟩
  · rintro ⟨names, b, ⟨hkind, hasync, hnames, c, hbody, hb⟩, rfl⟩
    rw [hbody, Option.map_some, assemble_plain hkind hasync, hnames, hb]
    rfl

/-- A name lowers to itself, to the reference it is, or to the undefined value. -/
theorem name_form {n : Node} (hkind : t.kind.isName = true)
    (h : (if t.text = "undefined" then Except.ok .undefinedLiteralExpr
      else Except.ok ((o.resolveReference? t).getD (.identifier t.text)) : Lowering Node) =
        .ok n) : ExprForm o t n := by
  split at h
  · next htext =>
    obtain rfl := Except.ok.inj h
    exact .undefinedName hkind htext
  · next htext =>
    obtain rfl := Except.ok.inj h
    cases href : o.resolveReference? t with
    | none => exact .name hkind htext href
    | some n => exact .nameReference hkind htext href

theorem lowerExpr_form {n : Node} (h : lowerExpr o t = .ok n) : ExprForm o t n := by
  obtain ⟨info, children⟩ := t
  have arguments (hinv : (Tree.node info children).isInvocation = true) :
      Arguments.assemble o (.node info children) (lowerArguments o children) =
        bindArguments o (.node info children) := by
    rw [bindArguments, ← lowerArguments_eq o hinv]
    rfl
  unfold lowerExpr at h
  dsimp only at h
  split at h
  case h_1 | h_2 =>
    next hk => exact name_form (by rw [Tree.kind, Tree.info, hk]; rfl) h
  case h_3 | h_4 | h_5 | h_6 | h_7 | h_8 =>
    next hk =>
      refine .literal ?_
      rw [← Except.ok.inj h]
      simp only [literalOf?, Tree.info, hk]
  case h_9 hk =>
    rw [lowerChildren_eq] at h
    exact .template hk h
  case h_10 | h_11 | h_12 | h_13 =>
    next hk => exact .wrapper (by rw [Tree.kind, Tree.info, hk]; rfl) (required_operand_iff.mp h)
  case h_14 hk =>
    rw [getLast?_lowerChildren] at h
    obtain ⟨c, hc, hn⟩ := required_map_eq_ok.mp h
    exact .assertion hk hc hn
  case h_15 hk =>
    obtain ⟨_, hplain, h⟩ := bind_eq_ok.mp h
    rw [rejectOptionalChain_eq_ok] at hplain
    split at h
    · next href =>
      obtain rfl := pure_eq_ok.mp h
      exact .accessReference (.inl hk) hplain href
    · next href =>
      simp only [bind_eq_ok, pure_eq_ok, required_field_iff, requiredField_eq_ok] at h
      obtain ⟨object, hobject, property, hproperty, rfl⟩ := h
      exact .member hk hplain href hobject hproperty
  case h_16 hk =>
    obtain ⟨_, hplain, h⟩ := bind_eq_ok.mp h
    rw [rejectOptionalChain_eq_ok] at hplain
    split at h
    · next href =>
      obtain rfl := pure_eq_ok.mp h
      exact .accessReference (.inr hk) hplain href
    · next href =>
      simp only [bind_eq_ok, pure_eq_ok, required_field_iff] at h
      obtain ⟨object, hobject, index, hindex, rfl⟩ := h
      exact .subscript hk hplain href hobject hindex
  case h_17 hk =>
    simp only [bind_eq_ok, pure_eq_ok, required_field_iff, rejectOptionalChain_eq_ok] at h
    obtain ⟨_, hplain, _, huntagged, callee, hcallee, args, hargs, rfl⟩ := h
    rw [arguments (by rw [Tree.isInvocation, Tree.kind, Tree.info, hk])] at hargs
    exact .call hk hplain huntagged hcallee hargs
  case h_18 hk =>
    split at h
    · next hlist =>
      simp only [bind_eq_ok, pure_eq_ok, required_field_iff] at h
      obtain ⟨args, hargs, callee, hcallee, rfl⟩ := h
      rw [arguments (by rw [Tree.isInvocation, Tree.kind, Tree.info, hk])] at hargs
      exact .new hk hlist hargs hcallee
    · next hlist =>
      rw [Bool.not_eq_true, Option.isSome_eq_false_iff, Option.isNone_iff_eq_none] at hlist
      simp only [bind_eq_ok, pure_eq_ok, required_field_iff] at h
      obtain ⟨args, hargs, callee, hcallee, rfl⟩ := h
      obtain rfl := Except.ok.inj hargs
      exact .newBare hk hlist hcallee
  case h_19 hk =>
    obtain ⟨token, htoken, h⟩ := bind_eq_ok.mp h
    rw [requiredField_eq_ok] at htoken
    split at h
    · cases h
    · next symbol hknown =>
      simp only [bind_eq_ok, pure_eq_ok, required_field_iff] at h
      obtain ⟨left, hleft, right, hright, rfl⟩ := h
      exact .binary hk htoken hknown hleft hright
  case h_20 hk =>
    simp only [bind_eq_ok, pure_eq_ok, required_field_iff] at h
    obtain ⟨left, hleft, right, hright, rfl⟩ := h
    exact .assignment hk hleft hright
  case h_21 | h_22 =>
    obtain ⟨token, -, h⟩ := bind_eq_ok.mp h
    cases h
  case h_23 hk =>
    obtain ⟨token, htoken, h⟩ := bind_eq_ok.mp h
    obtain ⟨-, -, h⟩ := bind_eq_ok.mp h
    rw [requiredField_eq_ok] at htoken
    split at h
    · next htext =>
      simp only [bind_eq_ok, pure_eq_ok, required_field_iff] at h
      obtain ⟨m, hm, rfl⟩ := h
      exact .typeof hk htoken htext hm
    · next htext =>
      split at h
      · cases h
      · next symbol hknown =>
        simp only [bind_eq_ok, pure_eq_ok, required_field_iff] at h
        obtain ⟨m, hm, rfl⟩ := h
        exact .unary hk htoken htext hknown hm
  case h_24 hk =>
    simp only [bind_eq_ok, pure_eq_ok, required_field_iff] at h
    obtain ⟨condition, hcondition, thenValue, hthen, elseValue, helse, rfl⟩ := h
    exact .ternary hk hcondition hthen helse
  case h_25 hk =>
    obtain ⟨items, hitems, h⟩ := bind_eq_ok.mp h
    obtain rfl := pure_eq_ok.mp h
    exact .array hk (gather_list_iff.mp hitems)
  case h_26 hk =>
    obtain ⟨properties, hproperties, h⟩ := bind_eq_ok.mp h
    obtain rfl := pure_eq_ok.mp h
    exact .object hk (gather_list_iff.mp hproperties)
  case h_27 | h_28 | h_29 =>
    next hk =>
      obtain ⟨names, b, hfunction, rfl⟩ := assemble_function_iff.mp h
      refine .function ?_ hfunction
      first
        | exact .inl hk
        | exact .inr hk
        | exact absurd hfunction.kind (by simp [Tree.kind, Tree.info, hk])
  case h_30 => cases h

theorem lowerStatement_form {ns : List Node} (h : lowerStatement o t = .ok ns) :
    StatementForm o t ns := by
  obtain ⟨info, children⟩ := t
  unfold lowerStatement at h
  dsimp only at h
  split at h
  case h_1 hk =>
    simp only [bind_eq_ok, pure_eq_ok, required_operand_iff] at h
    obtain ⟨m, hm, rfl⟩ := h
    exact .expression hk hm
  case h_2 hk =>
    obtain ⟨ns, hns, h⟩ := bind_eq_ok.mp h
    obtain rfl := pure_eq_ok.mp h
    exact .block hk (lowerStatements_iff.mp hns)
  case h_3 | h_4 =>
    next hk =>
      refine .declaration ?_ (gather_list_iff.mp h)
      first
        | exact .inl hk
        | exact .inr hk
  case h_5 hk =>
    obtain rfl := Except.ok.inj h
    exact .empty hk
  case h_6 hk =>
    obtain ⟨m?, hm, h⟩ := bind_eq_ok.mp h
    obtain rfl := pure_eq_ok.mp h
    rw [head?_lowerChildren, optional_map_eq_ok] at hm
    refine .return hk ?_
    rw [Tree.firstNamedChild?_eq]
    exact hm
  case h_7 hk =>
    simp only [bind_eq_ok, pure_eq_ok, required_field_iff] at h
    obtain ⟨condition, hcondition, thenBranch, hthen, elseBranch, helse, rfl⟩ := h
    exact .if hk hcondition hthen (optional_field_iff.mp helse)
  case h_8 hk =>
    simp only [bind_eq_ok, pure_eq_ok, required_field_iff] at h
    obtain ⟨condition, hcondition, block, hblock, rfl⟩ := h
    exact .while hk hcondition hblock
  case h_9 hk =>
    simp only [bind_eq_ok, pure_eq_ok, required_field_iff] at h
    obtain ⟨block, hblock, condition, hcondition, rfl⟩ := h
    exact .do hk hblock hcondition
  case h_10 hk =>
    split at h
    · cases h
    · next hawait =>
      rw [Bool.not_eq_true] at hawait
      obtain ⟨left, hleft, h⟩ := bind_eq_ok.mp h
      rw [requiredField_eq_ok] at hleft
      split at h
      · next hname =>
        obtain ⟨expr, hexpr, h⟩ := bind_eq_ok.mp h
        obtain ⟨body, hbody, h⟩ := bind_eq_ok.mp h
        rw [required_field_iff] at hexpr hbody
        split at h
        · next hof =>
          obtain rfl := pure_eq_ok.mp h
          exact .forOf hk hawait hleft hname hexpr hbody hof
        · next hof =>
          rw [Bool.not_eq_true] at hof
          obtain rfl := pure_eq_ok.mp h
          exact .forIn hk hawait hleft hname hexpr hbody hof
      · cases h
  case h_11 hk =>
    split at h
    · cases h
    · next hlabel =>
      rw [Bool.not_eq_true, Option.isSome_eq_false_iff, Option.isNone_iff_eq_none] at hlabel
      obtain rfl := Except.ok.inj h
      exact .break hk hlabel
  case h_12 hk =>
    split at h
    · cases h
    · next hlabel =>
      rw [Bool.not_eq_true, Option.isSome_eq_false_iff, Option.isNone_iff_eq_none] at hlabel
      obtain rfl := Except.ok.inj h
      exact .continue hk hlabel
  case h_13 hk =>
    simp only [bind_eq_ok, pure_eq_ok, required_field_iff] at h
    obtain ⟨block, hblock, handler, hhandler, finalizer, hfinalizer, rfl⟩ := h
    exact .try hk hblock (optional_field_iff.mp hhandler) (optional_field_iff.mp hfinalizer)
  case h_14 hk =>
    simp only [bind_eq_ok, pure_eq_ok, required_operand_iff] at h
    obtain ⟨m, hm, rfl⟩ := h
    exact .throw hk hm
  case h_15 hk =>
    obtain ⟨name, hname, h⟩ := bind_eq_ok.mp h
    obtain ⟨function, hfunction, h⟩ := bind_eq_ok.mp h
    rw [requiredField_eq_ok] at hname
    obtain rfl := pure_eq_ok.mp h
    obtain ⟨names, b, hform, rfl⟩ := assemble_function_iff.mp hfunction
    exact .function hk hname hform
  case h_16 => cases h
  case h_17 => cases h

theorem lowerAt_form {pos : Position} {n : Node} (h : lowerAt o pos t = .ok n) :
    PartForm o t pos n := by
  obtain ⟨info, children⟩ := t
  cases pos <;> simp only [lowerAt, lowerChildren, if_pos, List.head?_cons, required_some] at h
  case value => exact .value h
  case element =>
    split at h
    · next hk =>
      simp only [bind_eq_ok, pure_eq_ok, required_operand_iff] at h
      obtain ⟨m, hm, rfl⟩ := h
      exact .spread hk hm
    · next hk => exact .element hk h
  case property =>
    split at h
    case h_1 hk =>
      simp only [bind_eq_ok, pure_eq_ok, required_field_iff] at h
      obtain ⟨key, hkey, value, hvalue, rfl⟩ := h
      exact .pair hk hkey hvalue
    case h_2 hk =>
      obtain ⟨m, hm, h⟩ := bind_eq_ok.mp h
      obtain rfl := pure_eq_ok.mp h
      exact .shorthand hk hm
    case h_3 hk =>
      simp only [bind_eq_ok, pure_eq_ok, required_operand_iff] at h
      obtain ⟨m, hm, rfl⟩ := h
      exact .spreadProperty hk hm
    case h_4 => cases h
    case h_5 => cases h
  case propertyName =>
    split at h
    · next hk =>
      simp only [bind_eq_ok, pure_eq_ok, required_operand_iff] at h
      obtain ⟨m, hm, rfl⟩ := h
      exact .computedName hk hm
    · exact .plainName h
  case substitution => exact .substitution (required_operand_iff.mp h)
  case functionBody =>
    split at h
    · next hk =>
      obtain ⟨ns, hns, h⟩ := bind_eq_ok.mp h
      obtain rfl := pure_eq_ok.mp h
      exact .blockBody hk (lowerStatements_iff.mp hns)
    · next hk =>
      obtain ⟨m, hm, h⟩ := bind_eq_ok.mp h
      obtain rfl := pure_eq_ok.mp h
      exact .exprBody hk hm
  case block =>
    obtain ⟨ns, hns, h⟩ := bind_eq_ok.mp h
    obtain rfl := pure_eq_ok.mp h
    exact .block (lowerStatements_iff.mp hns)
  case loopBody =>
    split at h
    · next hk =>
      obtain ⟨ns, hns, h⟩ := bind_eq_ok.mp h
      obtain rfl := pure_eq_ok.mp h
      exact .blockLoop hk (lowerStatements_iff.mp hns)
    · next hk =>
      obtain ⟨ns, hns, h⟩ := bind_eq_ok.mp h
      obtain rfl := pure_eq_ok.mp h
      exact .statementLoop hk hns
  case branch =>
    obtain ⟨ns, hns, h⟩ := bind_eq_ok.mp h
    obtain rfl := pure_eq_ok.mp h
    exact .branch hns
  case elseClause => exact .elseClause (required_operand_iff.mp h)
  case declarator =>
    obtain ⟨name, hname, h⟩ := bind_eq_ok.mp h
    rw [requiredField_eq_ok] at hname
    split at h
    · next hplain =>
      simp only [bind_eq_ok, pure_eq_ok] at h
      obtain ⟨value, hvalue, rfl⟩ := h
      exact .declarator hname hplain (optional_field_iff.mp hvalue)
    · cases h
  case catchClause =>
    obtain ⟨target, htarget, h⟩ := bind_eq_ok.mp h
    simp only [bind_eq_ok, pure_eq_ok, required_field_iff] at h
    obtain ⟨block, hblock, rfl⟩ := h
    exact .catchClause htarget hblock
  case finallyClause => exact .finallyClause (required_field_iff.mp h)

end Reify
