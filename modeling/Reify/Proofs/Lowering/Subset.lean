/-
Lowering takes nothing unsupported apart.

`Exposes o t d` says that lowering `t` takes the node `d` apart or looks at it: `d` is reached
through the parts of `t`, but not inside an access that is kept as it is written, and not inside
an argument that no parameter is bound to.  Whatever way a tree of the grammar's shape lowers,
it exposes no unsupported node (`vetted`, `lowerFunction_supported`).
-/
import Reify.Proofs.Lowering.References
import Reify.Proofs.Tree.Grammar

namespace Reify

open Lowering

variable {o : Oracle}

/-! ## The unsupported -/

/-- Whether a node is outside the reflectable subset: an optional chain, `this`, `super`, a
class, a generator, a destructuring pattern, and so on, or an operator without a symbol. -/
def Tree.isUnsupported (t : Tree) : Bool :=
  match t.kind with
  | .optionalChain | .thisExpression | .superExpression | .awaitExpression | .yieldExpression
  | .regexLiteral | .sequenceExpression | .classDeclaration | .methodDefinition
  | .generatorFunction | .generatorFunctionDeclaration | .arrayPattern | .objectPattern
  | .forStatement | .switchStatement | .labeledStatement | .updateExpression
  | .augmentedAssignmentExpression => true
  | .unknown name => t.named && (name == "class" || name == "abstract_class_declaration")
  | .memberExpression | .subscriptExpression | .callExpression => isOptionalChain t
  | .binaryExpression =>
    (t.childByField? "operator").any fun token => (Operator.binary? token.text).isNone
  | .unaryExpression =>
    (t.childByField? "operator").any fun token =>
      token.text != "typeof" && (Operator.unary? token.text).isNone
  | _ => false

/-- Whether an expression is kept as it is written, as a reference. -/
def isKept (o : Oracle) (t : Tree) : Bool := isAccess t && (o.resolveReference? t).isSome

/-- Lowering `t` looks at `d`. -/
inductive Exposes (o : Oracle) : Tree → Tree → Prop
  | self (t : Tree) : Exposes o t t
  /-- The parts of what is not kept, an argument list aside. -/
  | part {t c d : Tree} (lowered : isKept o t = false) (part : c ∈ t.parts)
    (single : t.argumentList? ≠ some c) (below : Exposes o c d) : Exposes o t d
  /-- The arguments that an invocation is lowered with. -/
  | argument {t c d : Tree} (bound : c ∈ boundArguments o t) (below : Exposes o c d) :
    Exposes o t d

/-- Nothing unsupported is exposed. -/
def Supported (o : Oracle) (t : Tree) : Prop := ∀ d, Exposes o t d → d.isUnsupported = false

namespace Supported

variable {t : Tree}

theorem of_kept (hself : t.isUnsupported = false) (hkept : isKept o t = true)
    (harguments : boundArguments o t = []) : Supported o t := by
  intro d hd
  cases hd with
  | self => exact hself
  | part lowered =>
    rw [hkept] at lowered
    cases lowered
  | argument bound =>
    rw [harguments] at bound
    cases bound

theorem of_parts (hself : t.isUnsupported = false)
    (hparts : ∀ c ∈ t.parts, t.argumentList? = some c ∨ Supported o c)
    (harguments : ∀ c ∈ boundArguments o t, Supported o c) : Supported o t := by
  intro d hd
  cases hd with
  | self => exact hself
  | part lowered part single below =>
    rcases hparts _ part with hlist | hsupported
    · exact absurd hlist single
    · exact hsupported d below
  | argument bound below => exact harguments _ bound d below

end Supported

structure Plain (t : Tree) : Prop where
  supported : t.isUnsupported = false
  single : t.isInvocation = false

/-- The kinds that are supported whatever they hold, invocations aside. -/
def Tree.Kind.isOrdinary : Tree.Kind → Bool
  | .identifier | .propertyIdentifier | .shorthandPropertyIdentifier | .undefinedLiteral
  | .nullLiteral | .trueLiteral | .falseLiteral | .numberLiteral | .stringLiteral
  | .templateString | .templateSubstitution | .parenthesizedExpression | .asExpression
  | .satisfiesExpression | .nonNullExpression | .typeAssertion | .spreadElement
  | .computedPropertyName | .assignmentExpression | .ternaryExpression | .array | .object
  | .pair | .arrowFunction | .functionExpression | .functionDeclaration | .formalParameters
  | .requiredParameter | .optionalParameter | .restPattern | .expressionStatement
  | .statementBlock | .lexicalDeclaration | .variableDeclaration | .variableDeclarator
  | .emptyStatement | .returnStatement | .throwStatement | .ifStatement | .elseClause
  | .whileStatement | .doStatement | .forInStatement | .breakStatement | .continueStatement
  | .tryStatement | .catchClause | .finallyClause => true
  | _ => false

theorem Plain.of_kind {t : Tree} {k : Tree.Kind} (hkind : t.kind = k)
    (h : k.isOrdinary = true) : Plain t := by
  subst hkind
  unfold Tree.Kind.isOrdinary at h
  split at h
  case h_49 => cases h
  all_goals next hk => exact ⟨by rw [Tree.isUnsupported, hk], by rw [Tree.isInvocation, hk]⟩

theorem boundArguments_of_not_invocation {t : Tree} (h : t.isInvocation = false) :
    boundArguments o t = [] := by
  have hnone : t.callArguments = [] := by
    rw [Tree.callArguments, Tree.argumentList?, h]
    rfl
  rw [List.eq_nil_iff_forall_not_mem]
  intro c hc
  have hargument := mem_boundArguments hc
  rw [hnone] at hargument
  cases hargument

def FieldSupported (o : Oracle) (t : Tree) (name : String) : Prop :=
  ∀ c, t.childByField? name = some c → Supported o c

namespace Supported

variable {t : Tree}

theorem of_plain (hplain : Plain t) (hparts : ∀ c ∈ t.parts, Supported o c) :
    Supported o t := by
  refine of_parts hplain.supported (fun c hc => .inr (hparts c hc)) ?_
  rw [boundArguments_of_not_invocation hplain.single]
  exact List.forall_mem_nil _

theorem of_fields {fields : List String} (hfields : t.fields? = some fields)
    (hformed : t.Formed) (hplain : Plain t)
    (h : ∀ name ∈ fields, FieldSupported o t name) : Supported o t := by
  refine of_plain hplain fun c hc => ?_
  rw [Tree.parts_of_fields hfields hformed, List.mem_filterMap] at hc
  obtain ⟨name, hname, hfield⟩ := hc
  exact h name hname c hfield

theorem of_invocation {callee : String} (hfields : t.fields? = some [callee, "arguments"])
    (hformed : t.Formed) (hself : t.isUnsupported = false)
    (hlist : ∀ c, t.childByField? "arguments" = some c → t.argumentList? = some c)
    (hcallee : FieldSupported o t callee)
    (harguments : ∀ c ∈ boundArguments o t, Supported o c) : Supported o t := by
  refine of_parts hself (fun c hc => ?_) harguments
  rw [Tree.parts_of_fields hfields hformed, List.mem_filterMap] at hc
  obtain ⟨name, hname, hfield⟩ := hc
  rcases List.mem_pair.mp hname with rfl | rfl
  · exact .inr (hcallee c hfield)
  · exact .inl (hlist c hfield)

theorem of_leaf (hfields : t.fields? = some []) (hplain : Plain t) : Supported o t := by
  refine of_plain hplain fun c hc => ?_
  obtain ⟨slots, hlayout, hslots⟩ := Tree.layout_of_fields hfields
  rw [Tree.parts, hlayout, List.map_eq_nil_iff.mp hslots.symm] at hc
  simp [Tree.fills] at hc

theorem of_identifier (hkind : t.kind = .identifier) : Supported o t :=
  of_leaf (by rw [Tree.fields?, Tree.layout?, hkind]; rfl) (.of_kind hkind rfl)

end Supported

/-- Whatever way the tree lowers, it exposes nothing unsupported. -/
structure Vetted (o : Oracle) (t : Tree) : Prop where
  part : ∀ pos n, pos.admits t.kind = true → lowerAt o pos t = .ok n → Supported o t
  expr : ∀ n, lowerExpr o t = .ok n → Supported o t
  statement : ∀ ns, lowerStatement o t = .ok ns → Supported o t

theorem forall_supported {pos : Position} {ts : List Tree} {ns : List Node}
    (h : List.Forall₂ (fun c n => lowerAt o pos c = .ok n) ts ns)
    (hts : ∀ c ∈ ts, Vetted o c ∧ pos.admits c.kind = true) : ∀ c ∈ ts, Supported o c := by
  induction h with
  | nil => exact List.forall_mem_nil _
  | @cons c n cs ns hn _ ih =>
    rw [List.forall_mem_cons] at hts ⊢
    exact ⟨hts.1.1.part pos n hts.1.2 hn, ih hts.2⟩

theorem optional_supported {pos : Position} {c? : Option Tree} {n? : Option Node}
    (h : Option.Rel (fun c n => lowerAt o pos c = .ok n) c? n?)
    (hc : ∀ c ∈ c?, Vetted o c ∧ pos.admits c.kind = true) : ∀ c ∈ c?, Supported o c := by
  cases h with
  | none => nofun
  | @some c n hn =>
    intro d hd
    obtain rfl := Option.mem_some.mp hd
    obtain ⟨hvetted, hadmits⟩ := hc c rfl
    exact hvetted.part pos n hadmits hn

/-! ## Parts -/

section Parts

variable {t : Tree} (hformed : t.Formed) (hparts : ∀ c ∈ t.parts, Vetted o c)

include hformed hparts

theorem FieldForm.supported {pos : Position} {name : String} {n : Node}
    (h : FieldForm o t pos name n) (hslot : t.slot? name = some ⟨name, pos.admits⟩) :
    FieldSupported o t name := by
  obtain ⟨c, hc, hn⟩ := h
  intro d hd
  obtain rfl : c = d := Option.some.inj (hc.symm.trans hd)
  obtain ⟨hpart, hadmits⟩ := Tree.part_of_slot hslot hformed hc
  exact (hparts c hpart).part pos n hadmits hn

theorem OptionalForm.supported {pos : Position} {name : String} {n? : Option Node}
    (h : OptionalForm o t pos name n?) (hslot : t.slot? name = some ⟨name, pos.admits⟩) :
    FieldSupported o t name := by
  refine optional_supported h fun c hc => ?_
  obtain ⟨hpart, hadmits⟩ := Tree.part_of_slot hslot hformed hc
  exact ⟨hparts c hpart, hadmits⟩

theorem operand_supported {pos : Position} {n? : Option Node}
    (h : Option.Rel (fun c n => lowerAt o pos c = .ok n) t.firstNamedChild? n?)
    (hlayout : t.layout? = some .first)
    (hpos : ∀ k : Tree.Kind, k.standsAlone = true → pos.admits k = true) :
    ∀ c ∈ t.parts, Supported o c := by
  have hrow : t.parts = t.firstNamedChild?.toList := by rw [Tree.parts, hlayout]
  have hkeeps := hformed.layout
  rw [hlayout] at hkeeps
  intro c hc
  have hmem : c ∈ t.firstNamedChild? := by
    rw [hrow] at hc
    exact Option.mem_toList.mp hc
  refine optional_supported h (fun d hd => ?_) c hmem
  have hpart : d ∈ t.parts := by
    rw [hrow]
    exact Option.mem_toList.mpr hd
  exact ⟨hparts d hpart, hpos d.kind (hkeeps d hpart)⟩

theorem OperandForm.supported {pos : Position} {n : Node} (h : OperandForm o t pos n)
    (hlayout : t.layout? = some .first)
    (hpos : ∀ k : Tree.Kind, k.standsAlone = true → pos.admits k = true) :
    ∀ c ∈ t.parts, Supported o c := by
  obtain ⟨c, hc, hn⟩ := h
  have hoperand : Option.Rel (fun c n => lowerAt o pos c = .ok n) t.firstNamedChild? (some n) := by
    rw [hc]
    exact .some hn
  exact operand_supported hformed hparts hoperand hlayout hpos

theorem ListForm.supported {pos : Position} {ns : List Node}
    (h : ListForm o t pos Tree.isOperand ns) (hlayout : t.layout? = some (.row pos.admits)) :
    ∀ c ∈ t.parts, Supported o c := by
  have hrow : t.parts = t.namedChildren := by rw [Tree.parts, hlayout]
  have hkeeps := hformed.layout
  rw [hlayout] at hkeeps
  rw [hrow]
  refine forall_supported h fun c hc => ?_
  have hpart : c ∈ t.parts := hrow ▸ hc
  exact ⟨hparts c hpart, hkeeps c hpart⟩

omit hformed in
theorem StatementsForm.supported {ns : List Node} (h : StatementsForm o t ns)
    (hrow : t.parts = t.namedChildren) : ∀ c ∈ t.parts, Supported o c := by
  obtain ⟨nss, hnss, -⟩ := h
  rw [hrow] at hparts ⊢
  generalize t.namedChildren = cs at hnss hparts ⊢
  induction hnss with
  | nil => exact List.forall_mem_nil _
  | @cons c ns cs nss hns _ ih =>
    rw [List.forall_mem_cons] at hparts ⊢
    exact ⟨hparts.1.statement ns hns, ih hparts.2⟩

end Parts

/-! ## Parameters -/

theorem patternName_supported {pattern : Tree} {name : String}
    (h : Function.patternName pattern = .ok name) : Supported o pattern := by
  unfold Function.patternName at h
  split at h
  case h_1 hkind => exact .of_identifier hkind
  case h_2 hkind =>
    split at h
    · next operand hoperand =>
      split at h
      · next hidentifier =>
        have hlayout : pattern.layout? = some .first := by rw [Tree.layout?, hkind]
        have hparts : pattern.parts = [operand] := by rw [Tree.parts, hlayout, hoperand]; rfl
        refine .of_plain (.of_kind hkind rfl) ?_
        rw [hparts, List.forall_mem_singleton]
        exact .of_identifier hidentifier
      · cases h
    · cases h
  all_goals cases h

theorem parameterName_supported {parameter : Tree} {name : String} (hformed : parameter.Formed)
    (h : Function.parameterName parameter = .ok name) : Supported o parameter := by
  unfold Function.parameterName at h
  split at h
  case h_3 => exact patternName_supported h
  all_goals
    next hkind =>
      obtain ⟨pattern, hpattern, hname⟩ := required_map_eq_ok.mp h
      have hfields : parameter.fields? = some ["pattern"] := by
        rw [Tree.fields?, Tree.layout?, hkind]; rfl
      refine .of_fields hfields hformed (.of_kind hkind rfl) ?_
      rw [List.forall_mem_singleton]
      intro c hc
      obtain rfl : pattern = c := Option.some.inj (hpattern.symm.trans hc)
      exact patternName_supported hname

theorem parameterList_supported {list : Tree} {names : List String} (hgrammatical : list.Grammatical)
    (hkind : list.kind = .formalParameters)
    (h : gather (list.namedChildren.map Function.parameterName) = .ok names) :
    Supported o list := by
  have hparts : list.parts = list.namedChildren := by rw [Tree.parts, Tree.layout?, hkind]
  refine .of_plain (.of_kind hkind rfl) ?_
  have hformed : ∀ c ∈ list.parts, c.Formed := fun c hc => (hgrammatical.part hc).here
  rw [hparts] at hformed ⊢
  rw [gather_map_eq_ok] at h
  generalize list.namedChildren = cs at h hformed
  induction h with
  | nil => exact List.forall_mem_nil _
  | @cons c name cs names hname _ ih =>
    rw [List.forall_mem_cons] at hformed ⊢
    exact ⟨parameterName_supported hformed.1 hname, ih hformed.2⟩

theorem FieldSupported.of_only {t : Tree} {name : String} {kind : Tree.Kind}
    (hslot : t.slot? name = some (.only name kind)) (hformed : t.Formed)
    (hleaf : ∀ c : Tree, c.kind = kind → Supported o c) : FieldSupported o t name := by
  intro c hc
  exact hleaf c (beq_iff_eq.mp (Tree.part_of_slot hslot hformed hc).2)

section Function

variable {t : Tree} {names : List String} {b : Node} (h : FunctionForm o t names b)
  (hgrammatical : t.Grammatical) (hparts : ∀ c ∈ t.parts, Vetted o c)

include h hgrammatical

theorem FunctionForm.parameters_supported
    (hslot : t.slot? "parameters" = some (.only "parameters" .formalParameters))
    (hmany : t.childByField? "parameter" = none) : FieldSupported o t "parameters" := by
  intro list hlist
  obtain ⟨hpart, hadmits⟩ := Tree.part_of_slot hslot hgrammatical.here hlist
  have hnames := h.parameters
  unfold Function.parameterNames at hnames
  rw [hmany, hlist] at hnames
  exact parameterList_supported (hgrammatical.part hpart) (beq_iff_eq.mp hadmits) hnames

include hparts

theorem FunctionForm.body_supported : FieldSupported o t "body" :=
  h.body.supported hgrammatical.here hparts (Tree.slot_body_of_function h.kind)

theorem FunctionForm.arrow_supported (hkind : t.kind = .arrowFunction) : Supported o t := by
  have hplain : Plain t := .of_kind hkind rfl
  have hbody := h.body_supported hgrammatical hparts
  have hfields := Tree.fields_of_arrow hkind
  cases hparameter : t.childByField? "parameter" with
  | some parameter =>
    rw [hparameter, Option.isSome_some, if_pos rfl] at hfields
    have hslot : t.slot? "parameter" = some (.only "parameter" .identifier) := by
      simp only [Tree.slot?, Tree.layout?, hkind, hparameter, Option.isSome_some, if_true]
      rfl
    have hsingle : FieldSupported o t "parameter" :=
      .of_only hslot hgrammatical.here fun _ => .of_identifier
    refine .of_fields hfields hgrammatical.here hplain ?_
    rw [List.forall_mem_cons, List.forall_mem_singleton]
    exact ⟨hsingle, hbody⟩
  | none =>
    rw [hparameter, Option.isSome_none, if_neg Bool.false_ne_true] at hfields
    have hslot : t.slot? "parameters" = some (.only "parameters" .formalParameters) := by
      simp only [Tree.slot?, Tree.layout?, hkind, hparameter, Option.isSome_none,
        Bool.false_eq_true, if_false]
      rfl
    have hmany := h.parameters_supported hgrammatical hslot hparameter
    refine .of_fields hfields hgrammatical.here hplain ?_
    rw [List.forall_mem_cons, List.forall_mem_singleton]
    exact ⟨hmany, hbody⟩

theorem FunctionForm.named_supported
    (hkind : t.kind = .functionExpression ∨ t.kind = .functionDeclaration) : Supported o t := by
  have hformed := hgrammatical.here
  have hplain : Plain t := by rcases hkind with hkind | hkind <;> exact .of_kind hkind rfl
  have hfields : t.fields? = some ["name", "parameters", "body"] := by
    rcases hkind with hkind | hkind <;> rw [Tree.fields?, Tree.layout?, hkind] <;> rfl
  have hslots : t.slot? "name" = some (.only "name" .identifier) ∧
      t.slot? "parameters" = some (.only "parameters" .formalParameters) := by
    rcases hkind with hkind | hkind <;> rw [Tree.slot?, Tree.slot?, Tree.layout?, hkind] <;>
      exact ⟨rfl, rfl⟩
  have hname : FieldSupported o t "name" := .of_only hslots.1 hformed fun _ => .of_identifier
  -- what stands beside the parts is type syntax, so no child is in the field of a bare parameter
  have hsingle : t.childByField? "parameter" = none := by
    refine hformed.childByField?_eq_none hfields (by decide) fun c hc => ?_
    have haside := hformed.asides c hc
    have htype : c.inTypeField = true := by
      rcases hkind with hkind | hkind <;> simpa [Tree.mayStandAside, hkind] using haside
    cases hfield : c.inField "parameter" with
    | false => rfl
    | true =>
      rw [Tree.inField, beq_iff_eq] at hfield
      simp [Tree.inTypeField, Tree.inField, hfield] at htype
  have hmany := h.parameters_supported hgrammatical hslots.2 hsingle
  have hbody := h.body_supported hgrammatical hparts
  refine .of_fields hfields hformed hplain ?_
  rw [List.forall_mem_cons, List.forall_mem_cons, List.forall_mem_singleton]
  exact ⟨hname, hmany, hbody⟩

theorem FunctionForm.supported : Supported o t := by
  rcases h.kind with hkind | hkind
  · exact h.arrow_supported hgrammatical hparts hkind
  · exact h.named_supported hgrammatical hparts hkind

end Function

/-! ## Arguments -/

theorem ValueForm.supported {supplied : List Tree} {index : Nat} {p : Parameter}
    {n? : Option Node} (h : ValueForm o supplied index p n?)
    (hsupplied : ∀ c ∈ supplied, Vetted o c ∧ c.kind.standsAlone = true) :
    ∀ c ∈ if p.rest then supplied.drop index else supplied[index]?.toList, Supported o c := by
  cases h with
  | rest rest lowered =>
    rw [if_pos rest]
    exact forall_supported lowered fun c hc => hsupplied c (List.mem_of_mem_drop hc)
  | plain plain lowered =>
    rw [plain, if_neg Bool.false_ne_true]
    intro c hc
    have hvetted : ∀ c ∈ supplied[index]?, Vetted o c ∧ c.kind.standsAlone = true := fun c hc =>
      hsupplied c (List.mem_of_getElem? hc)
    exact optional_supported lowered hvetted c (Option.mem_toList.mp hc)

theorem BoundForm.supported {supplied : List Tree} {index : Nat} {ps : List Parameter}
    {ns : List Node} (h : BoundForm o supplied index ps ns)
    (hsupplied : ∀ c ∈ supplied, Vetted o c ∧ c.kind.standsAlone = true) :
    ∀ c ∈ boundFrom supplied index ps, Supported o c := by
  induction h with
  | nil => exact List.forall_mem_nil _
  | cons value _ ih =>
    rw [boundFrom, List.forall_mem_append]
    exact ⟨value.supported hsupplied, ih⟩

theorem ArgumentsForm.supported {t : Tree} {ns : List Node} (h : ArgumentsForm o t ns)
    (hsupplied : ∀ c ∈ t.callArguments, Vetted o c ∧ c.kind.standsAlone = true) :
    ∀ c ∈ boundArguments o t, Supported o c := by
  cases h with
  | @bound p ps ns signature bound =>
    have hbound : boundArguments o t = boundFrom t.callArguments 0 (p :: ps) := by
      rw [boundArguments, signature]
    rw [hbound]
    exact bound.supported hsupplied
  | @positional s? ns signature free lowered =>
    have hbound : boundArguments o t = t.callArguments := by
      rw [boundArguments, signature]
      split
      · next heq => exact absurd (Except.ok.inj heq) (free _ _)
      · rfl
    rw [hbound]
    exact forall_supported lowered hsupplied

/-! ## Forms -/

theorem literalOf?_supported {t : Tree} {n : Node} (h : literalOf? t.info = some n) :
    Supported o t := by
  unfold literalOf? at h
  split at h
  case h_7 => cases h
  all_goals
    next hk =>
      have hkind := show t.kind = _ from hk
      exact .of_leaf (by rw [Tree.fields?, Tree.layout?, hkind]; rfl) (.of_kind hkind rfl)

theorem supported_of_isName {t : Tree} (h : t.kind.isName = true) : Supported o t := by
  unfold Tree.Kind.isName at h
  split at h
  case h_3 => cases h
  all_goals
    next hk =>
      exact .of_leaf (by rw [Tree.fields?, Tree.layout?, hk]; rfl) (.of_kind hk rfl)

theorem layout_of_isWrapper {t : Tree} (h : t.kind.isWrapper = true) :
    t.layout? = some .first ∧ Plain t := by
  unfold Tree.Kind.isWrapper at h
  split at h
  case h_5 => cases h
  all_goals next hk => exact ⟨by rw [Tree.layout?, hk], .of_kind hk rfl⟩

theorem access_plain {t : Tree} (hkind : t.kind = .memberExpression ∨ t.kind = .subscriptExpression)
    (hplain : isOptionalChain t = false) : isAccess t = true ∧ Plain t := by
  rcases hkind with hkind | hkind <;>
    exact ⟨by rw [isAccess, hkind]; rfl, by rw [Tree.isUnsupported, hkind]; exact hplain,
      by rw [Tree.isInvocation, hkind]⟩

theorem ExprForm.supported {t : Tree} {n : Node} (h : ExprForm o t n)
    (hgrammatical : t.Grammatical) (hparts : ∀ c ∈ t.parts, Vetted o c)
    (hsupplied : ∀ c ∈ t.callArguments, Vetted o c ∧ c.kind.standsAlone = true) : Supported o t := by
  have hformed := hgrammatical.here
  have hchain (hplain : isOptionalChain t = false) : FieldSupported o t "optional_chain" := by
    intro c hc
    rw [isOptionalChain, hc] at hplain
    cases hplain
  cases h with
  | undefinedName kind text => exact supported_of_isName kind
  | name kind text untyped => exact supported_of_isName kind
  | nameReference kind text reference => exact supported_of_isName kind
  | literal found => exact literalOf?_supported found
  | template kind assembled =>
    obtain ⟨ps, rfl, hholes⟩ := assemble_template_form assembled
    have hrow : t.parts = t.children.filter isSubstitution := by
      rw [Tree.parts, Tree.layout?, kind]
      rfl
    refine .of_plain (.of_kind kind rfl) ?_
    rw [hrow] at hparts ⊢
    refine forall_supported hholes fun c hc => ⟨hparts c hc, ?_⟩
    exact (List.mem_filter.mp hc).2
  | wrapper kind operand =>
    obtain ⟨hlayout, hplain⟩ := layout_of_isWrapper kind
    exact .of_plain hplain (operand.supported hformed hparts hlayout fun _ h => h)
  | @assertion c n kind operand lowered =>
    have hlayout : t.layout? = some .last := by rw [Tree.layout?, kind]
    have hsingle : t.parts = [c] := by rw [Tree.parts, hlayout, operand]; rfl
    have hkeeps := hformed.layout
    rw [hlayout] at hkeeps
    have hpart : c ∈ t.parts := hsingle ▸ List.mem_singleton_self c
    refine .of_plain (.of_kind kind rfl) ?_
    rw [hsingle, List.forall_mem_singleton]
    exact (hparts c hpart).part .value n (hkeeps c hpart) lowered
  | accessReference kind plain reference =>
    obtain ⟨haccess, hplain⟩ := access_plain kind plain
    refine .of_kept hplain.supported ?_ (boundArguments_of_not_invocation hplain.single)
    rw [isKept, haccess, reference]
    rfl
  | @member n p kind plain untyped object property =>
    have hfields : t.fields? = some ["object", "optional_chain", "property"] := by
      rw [Tree.fields?, Tree.layout?, kind]; rfl
    have hslot : t.slot? "property" = some (.only "property" .propertyIdentifier) := by
      rw [Tree.slot?, Tree.layout?, kind]; rfl
    have hobject := object.supported hformed hparts (by rw [Tree.slot?, Tree.layout?, kind]; rfl)
    have hproperty : FieldSupported o t "property" := by
      refine .of_only hslot hformed fun c hc => ?_
      exact .of_leaf (by rw [Tree.fields?, Tree.layout?, hc]; rfl)
        (.of_kind hc rfl)
    refine .of_fields hfields hformed (access_plain (.inl kind) plain).2 ?_
    simp [hobject, hchain plain, hproperty]
  | subscript kind plain untyped object index =>
    have hfields : t.fields? = some ["object", "optional_chain", "index"] := by
      rw [Tree.fields?, Tree.layout?, kind]; rfl
    have hobject := object.supported hformed hparts (by rw [Tree.slot?, Tree.layout?, kind]; rfl)
    have hindex := index.supported hformed hparts (by rw [Tree.slot?, Tree.layout?, kind]; rfl)
    refine .of_fields hfields hformed (access_plain (.inr kind) plain).2 ?_
    simp [hobject, hchain plain, hindex]
  | call kind plain untagged callee bound =>
    have hfields : t.fields? = some ["function", "arguments"] := by
      rw [Tree.fields?, Tree.layout?, kind]; rfl
    have hcallee := callee.supported hformed hparts (by rw [Tree.slot?, Tree.layout?, kind]; rfl)
    have hself : t.isUnsupported = false := by
      rw [Tree.isUnsupported, kind]
      exact plain
    refine .of_invocation hfields hformed hself (fun list hlist => ?_) hcallee
      ((bindArguments_form bound).supported hsupplied)
    obtain ⟨_, hsame, hkind⟩ := rejectTaggedTemplate_eq_ok.mp untagged
    obtain rfl := Option.some.inj (hlist.symm.trans hsame)
    rw [Tree.argumentList?, if_pos (by rw [Tree.isInvocation, kind]), hlist]
    exact if_pos hkind
  | new kind list bound callee =>
    have hfields : t.fields? = some ["constructor", "arguments"] := by
      rw [Tree.fields?, Tree.layout?, kind]; rfl
    have hslot : t.slot? "arguments" = some (.only "arguments" .arguments) := by
      rw [Tree.slot?, Tree.layout?, kind]; rfl
    have hcallee := callee.supported hformed hparts (by rw [Tree.slot?, Tree.layout?, kind]; rfl)
    refine .of_invocation hfields hformed (by rw [Tree.isUnsupported, kind])
      (fun list hlist => ?_) hcallee ((bindArguments_form bound).supported hsupplied)
    have hkind : list.kind = .arguments :=
      beq_iff_eq.mp (Tree.part_of_slot hslot hformed hlist).2
    rw [Tree.argumentList?, if_pos (by rw [Tree.isInvocation, kind]), hlist]
    exact if_pos hkind
  | newBare kind list callee =>
    have hfields : t.fields? = some ["constructor", "arguments"] := by
      rw [Tree.fields?, Tree.layout?, kind]; rfl
    have hcallee := callee.supported hformed hparts (by rw [Tree.slot?, Tree.layout?, kind]; rfl)
    refine .of_invocation hfields hformed (by rw [Tree.isUnsupported, kind])
      (fun c hc => ?_) hcallee ?_
    · rw [list] at hc
      cases hc
    · rw [boundArguments_of_no_list list]
      exact List.forall_mem_nil _
  | binary kind operator known left right =>
    have hfields : t.fields? = some ["left", "right"] := by
      rw [Tree.fields?, Tree.layout?, kind]; rfl
    have hleft := left.supported hformed hparts (by rw [Tree.slot?, Tree.layout?, kind]; rfl)
    have hright := right.supported hformed hparts (by rw [Tree.slot?, Tree.layout?, kind]; rfl)
    have hself : t.isUnsupported = false := by
      rw [Tree.isUnsupported, kind]
      simp [operator, known]
    refine .of_fields hfields hformed ⟨hself, by rw [Tree.isInvocation, kind]⟩ ?_
    simp [hleft, hright]
  | assignment kind left right =>
    have hfields : t.fields? = some ["left", "right"] := by
      rw [Tree.fields?, Tree.layout?, kind]; rfl
    have hleft := left.supported hformed hparts (by rw [Tree.slot?, Tree.layout?, kind]; rfl)
    have hright := right.supported hformed hparts (by rw [Tree.slot?, Tree.layout?, kind]; rfl)
    refine .of_fields hfields hformed (.of_kind kind rfl) ?_
    simp [hleft, hright]
  | typeof kind operator text operand =>
    have hfields : t.fields? = some ["argument"] := by
      rw [Tree.fields?, Tree.layout?, kind]; rfl
    have hoperand := operand.supported hformed hparts (by rw [Tree.slot?, Tree.layout?, kind]; rfl)
    have hself : t.isUnsupported = false := by
      rw [Tree.isUnsupported, kind]
      simp [operator, text]
    refine .of_fields hfields hformed ⟨hself, by rw [Tree.isInvocation, kind]⟩ ?_
    simp [hoperand]
  | unary kind operator text known operand =>
    have hfields : t.fields? = some ["argument"] := by
      rw [Tree.fields?, Tree.layout?, kind]; rfl
    have hoperand := operand.supported hformed hparts (by rw [Tree.slot?, Tree.layout?, kind]; rfl)
    have hself : t.isUnsupported = false := by
      rw [Tree.isUnsupported, kind]
      simp [operator, known]
    refine .of_fields hfields hformed ⟨hself, by rw [Tree.isInvocation, kind]⟩ ?_
    simp [hoperand]
  | ternary kind condition thenValue elseValue =>
    have hfields : t.fields? = some ["condition", "consequence", "alternative"] := by
      rw [Tree.fields?, Tree.layout?, kind]; rfl
    have hcondition := condition.supported hformed hparts (by rw [Tree.slot?, Tree.layout?, kind]; rfl)
    have hthen := thenValue.supported hformed hparts (by rw [Tree.slot?, Tree.layout?, kind]; rfl)
    have helse := elseValue.supported hformed hparts (by rw [Tree.slot?, Tree.layout?, kind]; rfl)
    refine .of_fields hfields hformed (.of_kind kind rfl) ?_
    simp [hcondition, hthen, helse]
  | array kind items =>
    exact .of_plain (.of_kind kind rfl)
      (items.supported hformed hparts (by rw [Tree.layout?, kind]; rfl))
  | object kind properties =>
    exact .of_plain (.of_kind kind rfl)
      (properties.supported hformed hparts (by rw [Tree.layout?, kind]; rfl))
  | function kind function => exact function.supported hgrammatical hparts

theorem forIn_supported {t left : Tree} {n b : Node} (hformed : t.Formed)
    (hparts : ∀ c ∈ t.parts, Vetted o c) (kind : t.kind = .forInStatement)
    (target : t.childByField? "left" = some left) (name : left.kind = .identifier)
    (right : FieldForm o t .value "right" n) (body : FieldForm o t .loopBody "body" b) :
    Supported o t := by
  have hfields : t.fields? = some ["left", "right", "body"] := by
    rw [Tree.fields?, Tree.layout?, kind]; rfl
  have hleft : FieldSupported o t "left" := by
    intro c hc
    obtain rfl : left = c := Option.some.inj (target.symm.trans hc)
    exact .of_identifier name
  have hright := right.supported hformed hparts (by rw [Tree.slot?, Tree.layout?, kind]; rfl)
  have hbody := body.supported hformed hparts (by rw [Tree.slot?, Tree.layout?, kind]; rfl)
  refine .of_fields hfields hformed (.of_kind kind rfl) ?_
  simp [hleft, hright, hbody]

theorem StatementForm.supported {t : Tree} {ns : List Node} (h : StatementForm o t ns)
    (hgrammatical : t.Grammatical) (hparts : ∀ c ∈ t.parts, Vetted o c) : Supported o t := by
  have hformed := hgrammatical.here
  cases h with
  | expression kind operand =>
    exact .of_plain (.of_kind kind rfl)
      (operand.supported hformed hparts (by rw [Tree.layout?, kind]) fun _ h => h)
  | block kind statements =>
    exact .of_plain (.of_kind kind rfl)
      (statements.supported hparts (by rw [Tree.parts, Tree.layout?, kind]))
  | declaration kind declarators =>
    have hlayout : t.layout? = some (.row Position.declarator.admits) := by
      rcases kind with kind | kind <;> rw [Tree.layout?, kind] <;> rfl
    have hplain : Plain t := by rcases kind with kind | kind <;> exact .of_kind kind rfl
    rw [ListForm, Tree.filter_isDeclarator hformed hlayout] at declarators
    exact .of_plain hplain (ListForm.supported hformed hparts declarators hlayout)
  | empty kind =>
    exact .of_leaf (by rw [Tree.fields?, Tree.layout?, kind]; rfl)
      (.of_kind kind rfl)
  | «return» kind operand =>
    exact .of_plain (.of_kind kind rfl)
      (operand_supported hformed hparts operand (by rw [Tree.layout?, kind]) fun _ h => h)
  | «if» kind condition thenBranch elseBranch =>
    have hfields : t.fields? = some ["condition", "consequence", "alternative"] := by
      rw [Tree.fields?, Tree.layout?, kind]; rfl
    have hcondition := condition.supported hformed hparts (by rw [Tree.slot?, Tree.layout?, kind]; rfl)
    have hthen := thenBranch.supported hformed hparts (by rw [Tree.slot?, Tree.layout?, kind]; rfl)
    have helse := elseBranch.supported hformed hparts (by rw [Tree.slot?, Tree.layout?, kind]; rfl)
    refine .of_fields hfields hformed (.of_kind kind rfl) ?_
    simp [hcondition, hthen, helse]
  | «while» kind condition body =>
    have hfields : t.fields? = some ["condition", "body"] := by
      rw [Tree.fields?, Tree.layout?, kind]; rfl
    have hcondition := condition.supported hformed hparts (by rw [Tree.slot?, Tree.layout?, kind]; rfl)
    have hbody := body.supported hformed hparts (by rw [Tree.slot?, Tree.layout?, kind]; rfl)
    refine .of_fields hfields hformed (.of_kind kind rfl) ?_
    simp [hcondition, hbody]
  | «do» kind body condition =>
    have hfields : t.fields? = some ["body", "condition"] := by
      rw [Tree.fields?, Tree.layout?, kind]; rfl
    have hbody := body.supported hformed hparts (by rw [Tree.slot?, Tree.layout?, kind]; rfl)
    have hcondition := condition.supported hformed hparts (by rw [Tree.slot?, Tree.layout?, kind]; rfl)
    refine .of_fields hfields hformed (.of_kind kind rfl) ?_
    simp [hbody, hcondition]
  | forOf kind sync target name right body token =>
    exact forIn_supported hformed hparts kind target name right body
  | forIn kind sync target name right body token =>
    exact forIn_supported hformed hparts kind target name right body
  | «break» kind label =>
    have hnone : t.parts = [] := by rw [Tree.parts, Tree.layout?, kind, label]; rfl
    refine .of_plain (.of_kind kind rfl) ?_
    rw [hnone]
    exact List.forall_mem_nil _
  | «continue» kind label =>
    have hnone : t.parts = [] := by rw [Tree.parts, Tree.layout?, kind, label]; rfl
    refine .of_plain (.of_kind kind rfl) ?_
    rw [hnone]
    exact List.forall_mem_nil _
  | «try» kind body handler finalizer =>
    have hfields : t.fields? = some ["body", "handler", "finalizer"] := by
      rw [Tree.fields?, Tree.layout?, kind]; rfl
    have hbody := body.supported hformed hparts (by rw [Tree.slot?, Tree.layout?, kind]; rfl)
    have hhandler := handler.supported hformed hparts (by rw [Tree.slot?, Tree.layout?, kind]; rfl)
    have hfinalizer := finalizer.supported hformed hparts (by rw [Tree.slot?, Tree.layout?, kind]; rfl)
    refine .of_fields hfields hformed (.of_kind kind rfl) ?_
    simp [hbody, hhandler, hfinalizer]
  | throw kind operand =>
    exact .of_plain (.of_kind kind rfl)
      (operand.supported hformed hparts (by rw [Tree.layout?, kind]) fun _ h => h)
  | function kind named function => exact function.supported hgrammatical hparts

theorem plainPropertyName_supported {t : Tree} {n : Node}
    (h : plainPropertyName t.info = .ok n) : Supported o t := by
  unfold plainPropertyName at h
  split at h
  case h_4 => cases h
  all_goals
    next hk =>
      have hkind := show t.kind = _ from hk
      exact .of_leaf (by rw [Tree.fields?, Tree.layout?, hkind]; rfl) (.of_kind hkind rfl)

theorem catchVariable_supported {t : Tree} {v? : Option Node} (h : catchVariable t = .ok v?) :
    FieldSupported o t "parameter" := by
  intro parameter hparameter
  unfold catchVariable at h
  rw [hparameter] at h
  dsimp only at h
  split at h
  · next hidentifier => exact .of_identifier hidentifier
  · cases h

theorem PartForm.supported {t : Tree} {pos : Position} {n : Node} (h : PartForm o t pos n)
    (hadmits : pos.admits t.kind = true) (hgrammatical : t.Grammatical)
    (hparts : ∀ c ∈ t.parts, Vetted o c)
    (hexpr : ∀ n, lowerExpr o t = .ok n → Supported o t)
    (hstatement : ∀ ns, lowerStatement o t = .ok ns → Supported o t) : Supported o t := by
  have hformed := hgrammatical.here
  have hblock {ns : List Node} (kind : t.kind = .statementBlock)
      (statements : StatementsForm o t ns) : Supported o t :=
    .of_plain (.of_kind kind rfl)
      (statements.supported hparts (by rw [Tree.parts, Tree.layout?, kind]))
  have hspread {n : Node} (kind : t.kind = .spreadElement)
      (operand : OperandForm o t .value n) : Supported o t :=
    .of_plain (.of_kind kind rfl)
      (operand.supported hformed hparts (by rw [Tree.layout?, kind]) fun _ h => h)
  cases h with
  | value expr => exact hexpr _ expr
  | spread kind operand => exact hspread kind operand
  | element kind expr => exact hexpr _ expr
  | pair kind key value =>
    have hfields : t.fields? = some ["key", "value"] := by
      rw [Tree.fields?, Tree.layout?, kind]; rfl
    have hkey := key.supported hformed hparts (by rw [Tree.slot?, Tree.layout?, kind]; rfl)
    have hvalue := value.supported hformed hparts (by rw [Tree.slot?, Tree.layout?, kind]; rfl)
    refine .of_fields hfields hformed (.of_kind kind rfl) ?_
    simp [hkey, hvalue]
  | shorthand kind expr => exact hexpr _ expr
  | spreadProperty kind operand => exact hspread kind operand
  | computedName kind operand =>
    exact .of_plain (.of_kind kind rfl)
      (operand.supported hformed hparts (by rw [Tree.layout?, kind]) fun _ h => h)
  | plainName name => exact plainPropertyName_supported name
  | substitution operand =>
    have kind : t.kind = .templateSubstitution := beq_iff_eq.mp hadmits
    exact .of_plain (.of_kind kind rfl)
      (operand.supported hformed hparts (by rw [Tree.layout?, kind]) fun _ h => h)
  | blockBody kind statements => exact hblock kind statements
  | exprBody kind expr => exact hexpr _ expr
  | block statements => exact hblock (beq_iff_eq.mp hadmits) statements
  | blockLoop kind statements => exact hblock kind statements
  | statementLoop kind statement => exact hstatement _ statement
  | branch statement => exact hstatement _ statement
  | elseClause operand =>
    have kind : t.kind = .elseClause := beq_iff_eq.mp hadmits
    exact .of_plain (.of_kind kind rfl)
      (operand.supported hformed hparts (by rw [Tree.layout?, kind]) fun _ h => h)
  | declarator named plain value =>
    have kind : t.kind = .variableDeclarator := beq_iff_eq.mp hadmits
    have hfields : t.fields? = some ["name", "value"] := by
      rw [Tree.fields?, Tree.layout?, kind]; rfl
    have hname : FieldSupported o t "name" := by
      intro c hc
      obtain rfl := Option.some.inj (named.symm.trans hc)
      exact .of_identifier plain
    have hvalue := value.supported hformed hparts (by rw [Tree.slot?, Tree.layout?, kind]; rfl)
    refine .of_fields hfields hformed (.of_kind kind rfl) ?_
    simp [hname, hvalue]
  | catchClause target body =>
    have kind : t.kind = .catchClause := beq_iff_eq.mp hadmits
    have hfields : t.fields? = some ["parameter", "body"] := by
      rw [Tree.fields?, Tree.layout?, kind]; rfl
    have htarget : FieldSupported o t "parameter" := catchVariable_supported target
    have hbody := body.supported hformed hparts (by rw [Tree.slot?, Tree.layout?, kind]; rfl)
    refine .of_fields hfields hformed (.of_kind kind rfl) ?_
    simp [htarget, hbody]
  | finallyClause body =>
    have kind : t.kind = .finallyClause := beq_iff_eq.mp hadmits
    have hfields : t.fields? = some ["body"] := by
      rw [Tree.fields?, Tree.layout?, kind]; rfl
    have hbody := body.supported hformed hparts (by rw [Tree.slot?, Tree.layout?, kind]; rfl)
    refine .of_fields hfields hformed (.of_kind kind rfl) ?_
    simp [hbody]

/-! ## All trees -/

theorem Vetted.of_parts {t : Tree} (hgrammatical : t.Grammatical)
    (hparts : ∀ c ∈ t.parts, Vetted o c)
    (hsupplied : ∀ c ∈ t.callArguments, Vetted o c ∧ c.kind.standsAlone = true) :
    Vetted o t := by
  have hexpr : ∀ n, lowerExpr o t = .ok n → Supported o t := fun n hn =>
    (lowerExpr_form hn).supported hgrammatical hparts hsupplied
  have hstatement : ∀ ns, lowerStatement o t = .ok ns → Supported o t := fun ns hns =>
    (lowerStatement_form hns).supported hgrammatical hparts
  refine ⟨fun pos n hadmits hn => ?_, hexpr, hstatement⟩
  exact (lowerAt_form hn).supported hadmits hgrammatical hparts hexpr hstatement

theorem vetted (t : Tree) : t.Grammatical → Vetted o t := by
  induction t using Tree.induct_below with
  | node t ih =>
    intro hgrammatical
    have hparts : ∀ c ∈ t.parts, Vetted o c := by
      intro c hc
      exact (ih c (Tree.mem_of_mem_parts hc)).1 (hgrammatical.part hc)
    have hsupplied : ∀ c ∈ t.callArguments, Vetted o c ∧ c.kind.standsAlone = true := by
      intro c hc
      obtain ⟨list, hlist, hchild⟩ := Tree.exists_list_of_mem_callArguments hc
      obtain ⟨hargument, halone⟩ := hgrammatical.argument hc
      exact ⟨(ih list hlist).2 c hchild hargument, halone⟩
    exact .of_parts hgrammatical hparts hsupplied

theorem lowerFunction_supported {t : Tree} {flavor : FunctionFlavor} {drop : Nat} {n : Node}
    (hgrammatical : t.Grammatical) (h : lowerFunction o flavor drop t = .ok n) :
    Supported o t := by
  obtain ⟨info, children⟩ := t
  obtain ⟨names, b, function, -⟩ := assemble_function_iff.mp h
  exact function.supported hgrammatical fun c hc => vetted c (hgrammatical.part hc)

end Reify
