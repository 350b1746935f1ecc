/-
Lowering looks through wrappers.

A tree without some of its wrappers lowers as the tree does: to the same node, up to the text of
references, or to an error of the same name (`lowerExpr_unwraps`).  Lowering, types and access
paths look through wrappers independently of each other, so each function that reads a tree has
a lemma, and `Survives` carries them through the tree.  Where a literal index is wrapped, the
types and the path of an element access are not those of the bare index.
-/
import Reify.Proofs.Node.Unquoted
import Reify.Proofs.Tree.Unwrapped

namespace Reify

open Reify.Lowering Reify.Tree

/-! ## Outcomes -/

/-- The class of the error that a failure is reflected as. -/
def Failure.name : Failure → String
  | refused error => error.name
  | fault _ => internalError

namespace Lowering

variable {α β : Type} {R : α → α → Prop} {S : β → β → Prop}

/-- Both succeed, with related results, or both fail, with errors of the same name. -/
inductive Alike (R : α → α → Prop) : Lowering α → Lowering α → Prop
  | ok {a b : α} (h : R a b) : Alike R (.ok a) (.ok b)
  | error {f g : Failure} (h : g.name = f.name) : Alike R (.error f) (.error g)

namespace Alike

theorem bind {x y : Lowering α} {f g : α → Lowering β} (hx : Alike R x y)
    (h : ∀ {a b}, R a b → Alike S (f a) (g b)) : Alike S (x >>= f) (y >>= g) := by
  cases hx with
  | ok hab => exact h hab
  | error hname => exact .error hname

theorem map {x y : Lowering α} {f g : α → β} (hx : Alike R x y)
    (h : ∀ {a b}, R a b → S (f a) (g b)) :
    Alike S (do return f (← x)) (do return g (← y)) :=
  hx.bind fun hab => .ok (h hab)

theorem imp {x y : Lowering α} {R' : α → α → Prop} (hx : Alike R x y)
    (h : ∀ {a b}, R a b → R' a b) : Alike R' x y := by
  cases hx with
  | ok hab => exact .ok (h hab)
  | error hname => exact .error hname

theorem ite {c : Prop} [Decidable c] {x x' y y' : Lowering α} (hpos : Alike R x y)
    (hneg : Alike R x' y') : Alike R (if c then x else x') (if c then y else y') := by
  split
  · exact hpos
  · exact hneg

theorem required {i i' : Tree.Info}
    (hname : (Failure.unsupported i').name = (Failure.unsupported i).name)
    {r? s? : Option (Lowering α)} (h : Option.Rel (Alike R) r? s?) :
    Alike R (required i r?) (required i' s?) := by
  cases h with
  | none => exact .error hname
  | some h => exact h

theorem optional {r? s? : Option (Lowering α)} (h : Option.Rel (Alike R) r? s?) :
    Alike (Option.Rel R) (optional r?) (optional s?) := by
  cases h with
  | none => exact .ok .none
  | some h => exact h.map .some

theorem gather {rs ss : List (Lowering α)} (h : List.Forall₂ (Alike R) rs ss) :
    Alike (List.Forall₂ R) (gather rs) (gather ss) := by
  induction h with
  | nil => exact .ok .nil
  | cons head _ ih => exact head.bind fun hab => ih.map (.cons hab)

theorem reference {r? s? : Option Node} {x y : Lowering Node} (hother : Alike Node.Like x y) :
    Option.Rel Node.Like r? s? →
      Alike Node.Like (match r? with | some reference => return reference | none => x)
        (match s? with | some reference => return reference | none => y)
  | .some hlike => .ok hlike
  | .none => hother

end Alike
end Lowering

namespace Tree.Info.Respelled

variable {i i' : Tree.Info} (h : i.Respelled i')

include h

theorem name_refusal {error error' : String → Extent → LoweringError}
    (hname : ∀ text extent text' extent',
      (error' text' extent').name = (error text extent).name) :
    (Failure.refusal i' error').name = (Failure.refusal i error).name := by
  unfold Failure.refusal Span.extent?
  by_cases hspan : i.span.start ≤ i.span.stop
  · rw [if_pos hspan, if_pos (h.forward.mpr hspan)]
    exact hname _ _ _ _
  · rw [if_neg hspan, if_neg (mt h.forward.mp hspan)]

theorem name_unsupportedAs (kind kind' : String) :
    (Failure.unsupportedAs i' kind').name = (Failure.unsupportedAs i kind).name :=
  h.name_refusal fun _ _ _ _ => rfl

theorem name_unsupported : (Failure.unsupported i').name = (Failure.unsupported i).name :=
  h.name_unsupportedAs _ _

theorem name_operator (token token' : String) :
    (Failure.operator i' token').name = (Failure.operator i token).name :=
  h.name_refusal fun _ _ _ _ => rfl

theorem name_multipleSignatures (count : Nat) :
    (Failure.multipleSignatures i' count).name = (Failure.multipleSignatures i count).name :=
  h.name_refusal fun _ _ _ _ => rfl

theorem name_declarationOnly :
    (Failure.declarationOnly i').name = (Failure.declarationOnly i).name :=
  h.name_refusal fun _ _ _ _ => rfl

end Tree.Info.Respelled

/-! ## What an oracle answers -/

namespace Oracle

/-- The oracle looks through wrappers, where no literal index is wrapped. -/
structure LooksThrough (o : Oracle) : Prop where
  typeOf : ∀ {t t' : Tree}, Unwraps t t' → t.Everywhere BareIndex → o.typeOf t' = o.typeOf t
  resolvedSignature : ∀ {t t' : Tree}, UnwrapsInside t t' → t.Everywhere BareIndex →
    o.resolvedSignature t' = o.resolvedSignature t

end Oracle

theorem Declared.oracle_looksThrough (d : Declared) : d.oracle.LooksThrough where
  typeOf h hbare := d.typeOf_unwraps h hbare
  resolvedSignature h hbare := d.resolvedSignature_unwraps h hbare

namespace Oracle.LooksThrough

variable {o : Oracle} (ho : o.LooksThrough) {t t' : Tree} (h : UnwrapsInside t t')
  (hbare : t.Everywhere BareIndex)

include ho h hbare

theorem resolveReference? :
    Option.Rel Node.Like (o.resolveReference? t) (o.resolveReference? t') := by
  unfold Oracle.resolveReference?
  rw [ho.typeOf (.inside h) hbare, referencePath_unwraps (.inside h) hbare]
  split
  · exact .some (Node.referenceExpr_like _ _ _)
  · exact .none

theorem typeSnapshot? : o.typeSnapshot? t' = o.typeSnapshot? t := by
  rw [Oracle.typeSnapshot?, ho.typeOf (.inside h) hbare, Oracle.typeSnapshot?]

theorem usableSignature :
    Alike (· = ·) (Arguments.usableSignature o t) (Arguments.usableSignature o t') := by
  have hcallee : t'.callee?.bind o.typeOf = t.callee?.bind o.typeOf :=
    bind_related h.callee? fun hc hchild =>
      ho.typeOf hchild.unwraps (hbare.child (mem_of_callee? hc))
  unfold Arguments.usableSignature
  rw [hcallee, ho.resolvedSignature h hbare]
  split
  · exact .ok rfl
  · split
    · exact .ok rfl
    · exact .ok rfl
    · exact .error (h.respelled.name_multipleSignatures _)

end Oracle.LooksThrough

/-! ## What stands in fields -/

namespace Tree

namespace Kind

/-- The kind of what stands in a field of a node, where the grammar has one only. -/
def holds? (k : Kind) (field : String) : Option Kind :=
  match k, field with
  | .arrowFunction, "parameters" | .functionExpression, "parameters"
  | .functionDeclaration, "parameters" => some .formalParameters
  | .tryStatement, "body" | .catchClause, "body" | .finallyClause, "body" => some .statementBlock
  | .tryStatement, "handler" => some .catchClause
  | .tryStatement, "finalizer" => some .finallyClause
  | .ifStatement, "alternative" => some .elseClause
  | _, _ => none

end Kind

/-- Parameter lists, blocks and clauses stand where the grammar has them. -/
def Conforms (t : Tree) : Prop :=
  ∀ c ∈ t.children, ∀ k ∈ c.field.bind t.kind.holds?, c.kind = k

instance (t : Tree) : Decidable t.Conforms := inferInstanceAs (Decidable (∀ c ∈ t.children, _))

theorem Conforms.kind {t c : Tree} (h : t.Conforms) {name : String} {k : Kind}
    (hc : t.childByField? name = some c) (hk : t.kind.holds? name = some k) : c.kind = k := by
  refine h c (mem_of_childByField? hc) k ?_
  have hfield : c.inField name = true := List.find?_some hc
  rw [beq_iff_eq.mp hfield]
  exact hk

end Tree

/-! ## Parameters -/

section Parameters

variable {t t' : Tree} (h : UnwrapsInside t t')

include h

theorem patternName_alike :
    Alike (· = ·) (Function.patternName t) (Function.patternName t') := by
  have hrefused (kind kind' : String) := h.respelled.name_unsupportedAs kind kind'
  unfold Function.patternName
  rw [h.kind]
  split
  case h_1 hk => exact .ok (h.text_of_word (by rw [hk]; rfl)).symm
  case h_2 hk =>
    have hname : Option.Rel UnwrapsInside t.firstNamedChild? t'.firstNamedChild? :=
      rel_imp h.firstNamedChild? fun _ hc => hc.inside (by rw [hk]; rfl)
    generalize t.firstNamedChild? = name?, t'.firstNamedChild? = name'? at hname ⊢
    cases hname with
    | none => exact .error (hrefused _ _)
    | some hname =>
      dsimp only
      rw [hname.kind]
      split
      · next hidentifier => exact .ok (hname.text_of_word (by rw [hidentifier]; rfl)).symm
      · exact .error (hrefused _ _)
  case h_3 | h_4 => exact .error (hrefused _ _)
  case h_5 => exact .error h.respelled.name_unsupported

theorem parameterName_alike :
    Alike (· = ·) (Function.parameterName t) (Function.parameterName t') := by
  unfold Function.parameterName
  rw [h.kind]
  have hpattern (hvalue : t.kind.takesValue (some "pattern") = false) :
      Alike (· = ·) (required t.info ((t.childByField? "pattern").map Function.patternName))
        (required t'.info ((t'.childByField? "pattern").map Function.patternName)) := by
    exact .required h.respelled.name_unsupported
      (rel_map (h.childByField?_inside "pattern" rfl hvalue) fun hc => patternName_alike hc.1)
  split
  case h_1 hk | h_2 hk => exact hpattern (by rw [hk]; rfl)
  case h_3 => exact patternName_alike h

theorem parameterNames_alike (hconforms : t.Conforms) (hkind : t.kind = .arrowFunction ∨
    t.kind = .functionExpression ∨ t.kind = .functionDeclaration) :
    Alike (· = ·) (Function.parameterNames t) (Function.parameterNames t') := by
  have hother (name : String) (hname : name = "parameter" ∨ name = "parameters") :
      t.kind.takesValue (some name) = false := by
    rcases hkind with hk | hk | hk <;> rcases hname with rfl | rfl <;> rw [hk] <;> rfl
  have hsingle := h.childByField?_text "parameter" (by decide) rfl (hother _ (.inl rfl))
  have hlist : Option.Rel (fun c c' => UnwrapsInside c c' ∧ c.kind = .formalParameters)
      (t.childByField? "parameters") (t'.childByField? "parameters") := by
    refine rel_imp (h.childByField?_inside "parameters" rfl (hother _ (.inr rfl))) fun hc hinside =>
      ⟨hinside.1, hconforms.kind hc ?_⟩
    rcases hkind with hk | hk | hk <;> rw [hk] <;> rfl
  unfold Function.parameterNames
  generalize t.childByField? "parameter" = c?, t'.childByField? "parameter" = c'? at hsingle ⊢
  generalize t.childByField? "parameters" = l?, t'.childByField? "parameters" = l'? at hlist ⊢
  cases hsingle with
  | some hc => exact .ok (congrArg (fun name => [name]) hc.2.symm)
  | none =>
    cases hlist with
    | none => exact .ok rfl
    | @some l l' hl =>
      obtain ⟨hl, hk⟩ := hl
      have hnames : List.Forall₂ (Alike (· = ·)) (l.namedChildren.map Function.parameterName)
          (l'.namedChildren.map Function.parameterName) :=
        List.rel_map (fun c c' hc => parameterName_alike (hc.inside (by rw [hk]; rfl)))
          hl.namedChildren
      exact (Alike.gather hnames).imp fun hab => List.forall₂_eq_eq_eq ▸ hab

theorem assemble_function_alike (hconforms : t.Conforms) (flavor : FunctionFlavor) (drop : Nat)
    {body? body'? : Option (Lowering Node)} (hbody : Option.Rel (Alike Node.Like) body? body'?) :
    Alike Node.Like (Function.assemble flavor drop t body?)
      (Function.assemble flavor drop t' body'?) := by
  have hrefused (kind kind' : String) := h.respelled.name_unsupportedAs kind kind'
  have hbodyless := h.respelled.name_declarationOnly
  have hnames := parameterNames_alike h hconforms
  unfold Function.assemble
  rw [h.kind, h.hasToken]
  split
  case h_4 | h_5 => exact .error (hrefused _ _)
  case h_6 => exact .error hbodyless
  case h_1 hk | h_2 hk | h_3 hk =>
    cases hbody with
    | none => exact .error hbodyless
    | some hbody =>
      dsimp only
      split
      · exact .error (hrefused _ _)
      · refine (hnames (by simp [hk])).bind fun {names _} heq => hbody.map fun hab => ?_
        obtain rfl := heq
        cases flavor with
        | declaration => exact congrArg (Node.functionDecl _) hab
        | expression => exact congrArg (Node.functionExpr _) hab

end Parameters

/-! ## Arguments -/

theorem assemble_arguments_alike {o : Oracle} (ho : o.LooksThrough) {t t' : Tree}
    (h : UnwrapsInside t t') (hbare : t.Everywhere BareIndex) {rs ss : List (Lowering Node)}
    (hsupplied : List.Forall₂ (Alike Node.Like) rs ss) :
    Alike (List.Forall₂ Node.Like) (Arguments.assemble o t rs) (Arguments.assemble o t' ss) := by
  have hvalue (index : Nat) (p : Parameter) : Alike (Option.Rel Node.Like)
      (Arguments.valueFor rs index p) (Arguments.valueFor ss index p) := by
    unfold Arguments.valueFor
    split
    · exact (Alike.gather (List.forall₂_drop index hsupplied)).map fun hab =>
        .some (congrArg Node.arrayLiteralExpr (Node.unquotedAll_eq hab))
    · exact .optional (getElem?_related hsupplied index)
  have hbound (ps : List Parameter) (index : Nat) : Alike (List.Forall₂ Node.Like)
      (Arguments.bindFrom rs index ps) (Arguments.bindFrom ss index ps) := by
    induction ps generalizing index with
    | nil => exact .ok .nil
    | cons p ps ih =>
      exact (hvalue index p).bind fun hvalue => (ih (index + 1)).map fun hrest =>
        .cons (congrArg (Node.argument · _) (Node.unquotedOption_eq hvalue)) hrest
  refine (ho.usableSignature h hbare).bind fun {s? _} heq => ?_
  obtain rfl := heq
  split
  · exact hbound _ 0
  · have hargument (n m : Node) (hnm : n.Like m) :
        (Node.argument (some n) none).Like (.argument (some m) none) :=
      congrArg (fun n => Node.argument (some n) none) hnm
    exact (Alike.gather hsupplied).map fun hab => List.rel_map hargument hab

/-! ## Templates -/

theorem fill_alike (cuts : List (Lowering (List Char))) {rs ss : List (Lowering Node)}
    (h : List.Forall₂ (Alike Node.Like) rs ss) :
    Alike (fun parts parts' => Node.unquotedParts parts = Node.unquotedParts parts')
      (Template.fill cuts rs) (Template.fill cuts ss) := by
  induction h generalizing cuts with
  | nil =>
    cases cuts with
    | nil => exact .ok rfl
    | cons cut cuts =>
      cases cut with
      | error f => exact .error rfl
      | ok raw => exact .ok rfl
  | cons head _ ih =>
    cases cuts with
    | nil => exact .ok rfl
    | cons cut cuts =>
      cases cut with
      | error f => exact .error rfl
      | ok raw =>
        refine head.bind fun hnode => (ih cuts).map fun hparts => ?_
        rw [Node.unquotedParts_append, Node.unquotedParts_append, Node.unquotedParts,
          Node.unquotedParts, hparts, show _ = _ from hnode]

/-! ## Trees -/

namespace Position

def takesValue : Position → Bool
  | .value | .element | .functionBody => true
  | _ => false

/-- The kind of the trees in a position, where they are of one kind only. -/
def requires? : Position → Option Kind
  | .block => some .statementBlock
  | .elseClause => some .elseClause
  | .declarator => some .variableDeclarator
  | .catchClause => some .catchClause
  | .finallyClause => some .finallyClause
  | _ => none

theorem requires?_of_takesValue {pos : Position} (h : pos.takesValue = true) :
    pos.requires? = none := by
  unfold takesValue at h
  split at h
  case h_4 => cases h
  all_goals rfl

end Position

/-- Whatever way a tree is lowered, it survives that wrappers are removed. -/
structure Survives (o : Oracle) (t : Tree) : Prop where
  value : ∀ {t'}, Unwraps t t' → ∀ {pos : Position}, pos.takesValue = true →
    Alike Node.Like (lowerAt o pos t) (lowerAt o pos t')
  part : ∀ {t'}, UnwrapsInside t t' → ∀ {pos : Position}, (∀ k ∈ pos.requires?, t.kind = k) →
    Alike Node.Like (lowerAt o pos t) (lowerAt o pos t')
  statement : ∀ {t'}, UnwrapsInside t t' →
    Alike (List.Forall₂ Node.Like) (lowerStatement o t) (lowerStatement o t')

theorem seesThrough_isDeclarator : SeesThrough isDeclarator := by
  intro _ c c' h
  have hkind : (c'.kind == .variableDeclarator) = (c.kind == .variableDeclarator) :=
    seesThrough_kind rfl h
  rw [isDeclarator, hkind, seesThrough_isOperand h, isDeclarator]

section Children

variable {o : Oracle} {t t' : Tree} (h : UnwrapsInside t t')

include h

theorem lowerChildren_alike {pos : Position} {p : Tree → Bool} (hp : SeesThrough p)
    (hpart : ∀ c ∈ t.children, p c = true → ∀ c', UnwrapsChild t.kind c c' →
      Alike Node.Like (lowerAt o pos c) (lowerAt o pos c')) :
    List.Forall₂ (Alike Node.Like) (lowerChildren o pos p t.children)
      (lowerChildren o pos p t'.children) := by
  rw [lowerChildren_eq, lowerChildren_eq]
  have hrel := (List.forall₂_and_left (p := (· ∈ t.children.filter p)) _ _).mpr
    ⟨fun c hc => hc, filter_related h.children hp⟩
  refine List.rel_map (fun c c' ⟨hc, hchild⟩ => ?_) hrel
  obtain ⟨hc, htest⟩ := List.mem_filter.mp hc
  exact hpart c hc htest c' hchild

theorem required_alike {rs ss : List (Lowering Node)}
    (hasked : List.Forall₂ (Alike Node.Like) rs ss) :
    Alike Node.Like (required t.info rs.head?) (required t'.info ss.head?) :=
  .required h.respelled.name_unsupported (head?_related hasked)

variable (hbelow : ∀ c ∈ t.children, Survives o c)

include hbelow

theorem values_alike (pos : Position) (hpos : pos.takesValue = true) {p : Tree → Bool}
    (hp : SeesThrough p) :
    List.Forall₂ (Alike Node.Like) (lowerChildren o pos p t.children)
      (lowerChildren o pos p t'.children) :=
  lowerChildren_alike h hp fun c hc _ _ hchild => (hbelow c hc).value hchild.unwraps hpos

/-- So does what stands in a field for something else, if it is of the kind that the position
requires. -/
theorem parts_alike (hconforms : t.Conforms) (pos : Position) (name : String) {k : Kind}
    (hkind : t.kind = k) (hvalue : k.takesValue (some name) = false)
    (hrequires : pos.requires? = none ∨ pos.requires? = k.holds? name) :
    List.Forall₂ (Alike Node.Like) (lowerChildren o pos (inField name) t.children)
      (lowerChildren o pos (inField name) t'.children) := by
  subst hkind
  refine lowerChildren_alike h (seesThrough_inField name) fun c hc hfield c' hchild => ?_
  have hfield : c.field = some name := beq_iff_eq.mp hfield
  refine (hbelow c hc).part (hchild.inside (hfield ▸ hvalue)) fun k hk => ?_
  rcases hrequires with hnone | hholds
  · rw [hnone] at hk
    cases hk
  · rw [hholds] at hk
    refine hconforms c hc k ?_
    rw [hfield]
    exact hk

theorem members_alike {k : Kind} (hkind : t.kind = k)
    (hvalue : ∀ field, k.takesValue field = false) (pos : Position) (hpos : pos.requires? = none)
    {p : Tree → Bool} (hp : SeesThrough p) :
    List.Forall₂ (Alike Node.Like) (lowerChildren o pos p t.children)
      (lowerChildren o pos p t'.children) := by
  subst hkind
  refine lowerChildren_alike h hp fun c hc _ c' hchild =>
    (hbelow c hc).part (hchild.inside (hvalue _)) ?_
  rw [hpos]
  exact fun _ hk => nomatch hk

theorem kinds_alike (pos : Position) {k : Kind} (hexpression : k.isExpression = false)
    (hrequires : pos.requires? = none ∨ pos.requires? = some k) {p : Tree → Bool}
    (hp : SeesThrough p) (hkind : ∀ c, p c = true → c.kind = k) :
    List.Forall₂ (Alike Node.Like) (lowerChildren o pos p t.children)
      (lowerChildren o pos p t'.children) := by
  refine lowerChildren_alike h hp fun c hc htest c' hchild => ?_
  have hinside : UnwrapsInside c c' := by
    rcases hchild.unwraps.inside_or with hinside | ⟨-, hvalue, -⟩
    · exact hinside
    · rw [hkind c htest, hexpression] at hvalue
      cases hvalue
  refine (hbelow c hc).part hinside fun k' hk' => ?_
  rcases hrequires with hnone | hsome
  · rw [hnone] at hk'
    cases hk'
  · rw [hsome] at hk'
    exact (hkind c htest).trans (Option.some.inj hk')

end Children

theorem single_like {ns ms : List Node} (h : List.Forall₂ Node.Like ns ms) :
    (single ns).Like (single ms) := by
  cases h with
  | nil => rfl
  | cons head tail =>
    cases tail with
    | nil => exact head
    | cons head' tail =>
      exact congrArg Node.blockStmt (Node.unquotedAll_eq (.cons head (.cons head' tail)))

variable {o : Oracle}

section Nodes

variable {info info' : Tree.Info} {children children' : List Tree}
  (h : UnwrapsInside (.node info children) (.node info' children'))
  (hbelow : ∀ c ∈ children, Survives o c)

include h

theorem rejectOptionalChain_alike :
    Alike (· = ·) (rejectOptionalChain (.node info children))
      (rejectOptionalChain (.node info' children')) := by
  have hchain :
      isOptionalChain (.node info' children') = isOptionalChain (.node info children) := by
    have hkind : (Tree.node info' children').children.any (·.kind == .optionalChain) =
        (Tree.node info children).children.any (·.kind == .optionalChain) :=
      any_related h.children (seesThrough_kind rfl)
    rw [isOptionalChain, isOptionalChain, h.isSome_childByField?, h.hasToken, hkind]
  rw [rejectOptionalChain, rejectOptionalChain, hchain]
  exact .ite (.error (h.respelled.name_unsupportedAs _ _)) (.ok rfl)

theorem rejectTaggedTemplate_alike (hkind : info.kind = .callExpression) :
    Alike (· = ·) (rejectTaggedTemplate (.node info children))
      (rejectTaggedTemplate (.node info' children')) := by
  have hrefused := h.respelled.name_unsupportedAs "tagged template" "tagged template"
  have hlist := h.childByField?_inside "arguments" hkind rfl
  unfold rejectTaggedTemplate
  generalize (Tree.node info children).childByField? "arguments" = c?,
    (Tree.node info' children').childByField? "arguments" = c'? at hlist ⊢
  cases hlist with
  | none => exact .error hrefused
  | some hlist =>
    dsimp only
    rw [hlist.1.kind]
    exact .ite (.ok rfl) (.error hrefused)

theorem requiredField_alike {name : String} {R : Tree → Tree → Prop}
    (hchild : Option.Rel R ((Tree.node info children).childByField? name)
      ((Tree.node info' children').childByField? name)) :
    Alike R (requiredField (.node info children) name)
      (requiredField (.node info' children') name) := by
  unfold requiredField
  generalize (Tree.node info children).childByField? name = c?,
    (Tree.node info' children').childByField? name = c'? at hchild ⊢
  cases hchild with
  | none => exact .error h.respelled.name_unsupported
  | some hc => exact .ok hc

theorem lowerArguments_alike (ho : o.LooksThrough)
    (hbare : (Tree.node info children).Everywhere BareIndex)
    (hargs : ∀ c ∈ (Tree.node info children).callArguments, Survives o c)
    (hinvocation : (Tree.node info children).isInvocation = true) :
    Alike (List.Forall₂ Node.Like)
      (Arguments.assemble o (.node info children) (lowerArguments o children))
      (Arguments.assemble o (.node info' children') (lowerArguments o children')) := by
  have hbefore : lowerArguments o children =
      (Tree.node info children).callArguments.map (lowerElement o) :=
    lowerArguments_eq o hinvocation
  have hafter : lowerArguments o children' =
      (Tree.node info' children').callArguments.map (lowerElement o) :=
    lowerArguments_eq o (t := .node info' children') (h.isInvocation.trans hinvocation)
  rw [hbefore, hafter]
  refine assemble_arguments_alike ho h hbare ?_
  have hrel := (List.forall₂_and_left (p := (· ∈ (Tree.node info children).callArguments)) _ _).mpr
    ⟨fun c hc => hc, h.callArguments⟩
  exact List.rel_map (fun c c' ⟨hc, hchild⟩ => (hargs c hc).value hchild.unwraps rfl) hrel

theorem plainPropertyName_alike :
    Alike Node.Like (plainPropertyName info) (plainPropertyName info') := by
  have hkind : info'.kind = info.kind := h.kind
  have hword : info.kind.isWord = true → info'.text = info.text := h.text_of_word
  unfold plainPropertyName
  rw [hkind]
  split
  case h_4 => exact .error h.respelled.name_unsupported
  all_goals
    next hk =>
      rw [hword (by rw [hk]; rfl)]
      exact .ok rfl

theorem catchVariable_alike (hkind : info.kind = .catchClause) :
    Alike (Option.Rel Node.Like) (catchVariable (.node info children))
      (catchVariable (.node info' children')) := by
  have hparameter := h.childByField?_text "parameter" (by decide) hkind rfl
  unfold catchVariable
  generalize (Tree.node info children).childByField? "parameter" = c?,
    (Tree.node info' children').childByField? "parameter" = c'? at hparameter ⊢
  cases hparameter with
  | none => exact .ok .none
  | some hc =>
    dsimp only
    rw [hc.1.kind, hc.2]
    exact .ite (.ok (.some rfl)) (.error (hc.1.respelled.name_unsupportedAs _ _))

include hbelow

theorem function_alike (hconforms : (Tree.node info children).Conforms) (flavor : FunctionFlavor)
    (drop : Nat) :
    Alike Node.Like
      (Function.assemble flavor drop (.node info children)
        (lowerChildren o .functionBody (inField "body") children).head?)
      (Function.assemble flavor drop (.node info' children')
        (lowerChildren o .functionBody (inField "body") children').head?) :=
  assemble_function_alike h hconforms flavor drop
    (head?_related (values_alike h hbelow .functionBody rfl (seesThrough_inField "body")))

theorem template_alike (hkind : info.kind = .templateString) :
    Alike Node.Like (lowerExpr o (.node info children)) (lowerExpr o (.node info' children')) := by
  have hholes := kinds_alike (k := .templateSubstitution) h hbelow .substitution rfl (.inl rfl)
    (seesThrough_kind rfl) fun c hc => beq_iff_eq.mp hc
  rw [lowerChildren_eq, lowerChildren_eq] at hholes
  have hafter : info'.kind = .templateString := h.kind.trans hkind
  rw [lowerExpr_template (t := .node info children) hkind,
    lowerExpr_template (t := .node info' children') hafter, h.cuts hkind]
  exact (fill_alike _ hholes).map fun hparts => congrArg Node.templateExpr hparts

theorem lowerExpr_alike (ho : o.LooksThrough)
    (hbare : (Tree.node info children).Everywhere BareIndex)
    (hconforms : (Tree.node info children).Conforms)
    (hargs : ∀ c ∈ (Tree.node info children).callArguments, Survives o c) :
    Alike Node.Like (lowerExpr o (.node info children)) (lowerExpr o (.node info' children')) := by
  -- A template is cut at the places of its substitutions, which are not where they were.
  by_cases htemplate : info.kind = .templateString
  · exact template_alike h hbelow htemplate
  have hkind : info'.kind = info.kind := h.kind
  have hvalue (name : String) := required_alike h
    (values_alike h hbelow .value rfl (seesThrough_inField name))
  have hreference := ho.resolveReference? h hbare
  have hsnapshot := ho.typeSnapshot? h hbare
  have hplain := rejectOptionalChain_alike h
  have hoperator (token token' : String) := h.respelled.name_operator token token'
  have hword : info.kind.isWord = true → info'.text = info.text := h.text_of_word
  have htext (name : String) (hread : name ∈ readFields) {k : Kind} (hk : info.kind = k)
      (hvalue : k.takesValue (some name) = false) :=
    requiredField_alike h (h.childByField?_text name hread hk hvalue)
  unfold lowerExpr
  simp only [hkind, hsnapshot, h.isSome_childByField?]
  split
  -- Names and literals.
  case h_1 hk | h_2 hk =>
    rw [hword (by rw [hk]; rfl)]
    refine .ite (.ok rfl) ?_
    generalize o.resolveReference? (.node info children) = r?,
      o.resolveReference? (.node info' children') = r'? at hreference ⊢
    cases hreference with
    | none => exact .ok rfl
    | some hlike => exact .ok hlike
  case h_3 | h_4 | h_5 | h_6 => exact .ok rfl
  case h_7 hk | h_8 hk =>
    rw [hword (by rw [hk]; rfl)]
    exact .ok rfl
  case h_9 hk => exact absurd hk htemplate
  -- Wrappers that are left.
  case h_10 | h_11 | h_12 | h_13 =>
    exact required_alike h (values_alike h hbelow .value rfl seesThrough_isOperand)
  case h_14 =>
    exact .required h.respelled.name_unsupported
      (getLast?_related (values_alike h hbelow .value rfl seesThrough_isOperand))
  -- Accesses and invocations.
  case h_15 hk =>
    refine hplain.bind fun _ => .reference ((hvalue "object").bind fun hobject =>
      (htext "property" (by decide) hk rfl).map fun hproperty => ?_) hreference
    rw [hproperty.2]
    exact congrArg (Node.propAccessExpr · _ _) hobject
  case h_16 =>
    exact hplain.bind fun _ => .reference ((hvalue "object").bind fun hobject =>
      (hvalue "index").map fun hindex =>
        congrArg₂ (Node.elementAccessExpr · · _) hobject hindex) hreference
  case h_17 hk =>
    refine hplain.bind fun _ => (rejectTaggedTemplate_alike h hk).bind fun _ =>
      (hvalue "function").bind fun hcallee =>
        (lowerArguments_alike h ho hbare hargs ?_).map fun hargs =>
          congrArg₂ Node.callExpr hcallee (Node.unquotedAll_eq hargs)
    rw [isInvocation, kind, Tree.info, hk]
  case h_18 hk =>
    have hbound := lowerArguments_alike h ho hbare hargs (by rw [isInvocation, kind, Tree.info, hk])
    have habsent : Alike (List.Forall₂ Node.Like) (.ok []) (.ok []) := .ok .nil
    refine .ite (hbound.bind fun hargs => ?_) (habsent.bind fun hargs => ?_)
    all_goals
      exact (hvalue "constructor").map fun hcallee =>
        congrArg₂ Node.newExpr hcallee (Node.unquotedAll_eq hargs)
  -- Operators.
  case h_19 hk =>
    refine (htext "operator" (by decide) hk rfl).bind fun {token token'} htoken => ?_
    rw [htoken.2]
    split
    · exact .error (hoperator _ _)
    · exact (hvalue "left").bind fun hleft => (hvalue "right").map fun hright =>
        congrArg₂ (Node.binaryExpr · _ ·) hleft hright
  case h_20 =>
    exact (hvalue "left").bind fun hleft => (hvalue "right").map fun hright =>
      congrArg₂ (Node.binaryExpr · "=" ·) hleft hright
  case h_21 hk | h_22 hk =>
    exact (htext "operator" (by decide) hk rfl).bind fun _ => .error (hoperator _ _)
  case h_23 hk =>
    refine (htext "operator" (by decide) hk rfl).bind fun {token token'} htoken =>
      (requiredField_alike h (h.childByField? "argument")).bind fun _ => ?_
    rw [htoken.2]
    refine .ite ((hvalue "argument").map fun hargument => congrArg Node.typeOfExpr hargument) ?_
    split
    · exact .error (hoperator _ _)
    · exact (hvalue "argument").map fun hargument => congrArg (Node.unaryExpr _) hargument
  case h_24 =>
    refine (hvalue "condition").bind fun hcondition => (hvalue "consequence").bind fun hthen =>
      (hvalue "alternative").map fun helse => ?_
    exact show Node.conditionExpr _ _ _ = Node.conditionExpr _ _ _ from
      congr (congrArg₂ Node.conditionExpr hcondition hthen) helse
  -- Arrays, objects and functions.
  case h_25 =>
    exact (Alike.gather (values_alike h hbelow .element rfl seesThrough_isOperand)).map
      fun hitems => congrArg Node.arrayLiteralExpr (Node.unquotedAll_eq hitems)
  case h_26 hk =>
    have hmembers := members_alike h hbelow hk (fun _ => rfl) .property rfl seesThrough_isOperand
    exact (Alike.gather hmembers).map fun hmembers =>
      congrArg Node.objectLiteralExpr (Node.unquotedAll_eq hmembers)
  case h_27 | h_28 | h_29 => exact function_alike h hbelow hconforms .expression 0
  case h_30 => exact .error h.respelled.name_unsupported

theorem lowerStatements_alike (hkind : info.kind = .statementBlock) :
    Alike (List.Forall₂ Node.Like) (lowerStatements o children) (lowerStatements o children') := by
  have hrel := (List.forall₂_and_left (p := (· ∈ children.filter isOperand)) _ _).mpr
    ⟨fun c hc => hc, h.namedChildren⟩
  have hstatements : List.Forall₂ (Alike (List.Forall₂ Node.Like))
      ((children.filter isOperand).map (lowerStatement o))
      ((children'.filter isOperand).map (lowerStatement o)) := by
    refine List.rel_map (fun c c' ⟨hc, hchild⟩ => ?_) hrel
    exact (hbelow c (List.mem_of_mem_filter hc)).statement
      (hchild.inside (by rw [show (Tree.node info children).kind = _ from hkind]; rfl))
  rw [lowerStatements_eq, lowerStatements_eq]
  exact (Alike.gather hstatements).map fun hab => List.rel_flatten hab

theorem block_alike (hkind : info.kind = .statementBlock) :
    Alike Node.Like (do return .blockStmt (← lowerStatements o children))
      (do return .blockStmt (← lowerStatements o children')) :=
  (lowerStatements_alike h hbelow hkind).map fun hns =>
    congrArg Node.blockStmt (Node.unquotedAll_eq hns)

theorem lowerStatement_alike (hconforms : (Tree.node info children).Conforms) :
    Alike (List.Forall₂ Node.Like) (lowerStatement o (.node info children))
      (lowerStatement o (.node info' children')) := by
  have hkind : info'.kind = info.kind := h.kind
  have hoperand := values_alike h hbelow .value rfl seesThrough_isOperand
  have hvalue (name : String) := required_alike h
    (values_alike h hbelow .value rfl (seesThrough_inField name))
  have hpart := parts_alike h hbelow hconforms
  have hjump := isSome_related h.firstNamedChild?
  have hrefused (kind kind' : String) := h.respelled.name_unsupportedAs kind kind'
  have hone {n m : Node} (hnm : n.Like m) : List.Forall₂ Node.Like [n] [m] := .cons hnm .nil
  unfold lowerStatement
  simp only [hkind, h.hasToken, hjump]
  split
  case h_1 => exact (required_alike h hoperand).map fun hn => hone (congrArg Node.exprStmt hn)
  case h_2 hk =>
    exact (lowerStatements_alike h hbelow hk).map fun hns =>
      hone (congrArg Node.blockStmt (Node.unquotedAll_eq hns))
  case h_3 | h_4 =>
    refine .gather (kinds_alike (k := .variableDeclarator) h hbelow .declarator rfl (.inr rfl)
      seesThrough_isDeclarator fun c hc => ?_)
    rw [isDeclarator, Bool.and_eq_true, beq_iff_eq] at hc
    exact hc.2
  case h_5 => exact .ok .nil
  case h_6 =>
    refine (Alike.optional (head?_related hoperand)).map fun hn? => hone ?_
    cases hn? with
    | none => rfl
    | some hn => exact congrArg Node.returnStmt hn
  case h_7 hk =>
    have hthen := hpart .branch "consequence" hk rfl (.inl rfl)
    have helse := hpart .elseClause "alternative" hk rfl (.inr rfl)
    refine (hvalue "condition").bind fun hn => (required_alike h hthen).bind fun hm =>
      (Alike.optional (head?_related helse)).map fun hl? => hone ?_
    exact show Node.ifStmt _ _ _ = Node.ifStmt _ _ _ from
      congr (congrArg₂ Node.ifStmt hn hm) (Node.unquotedOption_eq hl?)
  case h_8 hk =>
    have hbody := required_alike h (hpart .loopBody "body" hk rfl (.inl rfl))
    exact (hvalue "condition").bind fun hn => hbody.map fun hm =>
      hone (congrArg₂ Node.whileStmt hn hm)
  case h_9 hk =>
    have hbody := required_alike h (hpart .loopBody "body" hk rfl (.inl rfl))
    exact hbody.bind fun hn => (hvalue "condition").map fun hm =>
      hone (congrArg₂ Node.doStmt hn hm)
  case h_10 hk =>
    have hbody := required_alike h (hpart .loopBody "body" hk rfl (.inl rfl))
    have hleft := requiredField_alike h (h.childByField?_inside "left" hk rfl)
    refine .ite (.error (hrefused _ _)) (hleft.bind fun {left left'} hleft => ?_)
    rw [hleft.1.kind]
    split
    case isFalse => exact .error (hleft.1.respelled.name_unsupportedAs _ _)
    case isTrue hidentifier =>
      have htarget : loopVariable (.node info' children') left'.text =
          loopVariable (.node info children) left.text := by
        rw [hleft.1.text_of_word (by rw [hidentifier]; rfl)]
        simp only [loopVariable, h.hasToken]
      rw [htarget]
      refine (hvalue "right").bind fun hn => hbody.bind fun hm => ?_
      split
      · exact .ok (hone (congrArg₂ (Node.forOfStmt _) hn hm))
      · exact .ok (hone (congrArg₂ (Node.forInStmt _) hn hm))
  case h_11 | h_12 => exact .ite (.error (hrefused _ _)) (.ok (hone rfl))
  case h_13 hk =>
    have hblock := hpart .block "body" hk rfl (.inr rfl)
    have hhandler := hpart .catchClause "handler" hk rfl (.inr rfl)
    have hfinalizer := hpart .finallyClause "finalizer" hk rfl (.inr rfl)
    refine (required_alike h hblock).bind fun hn =>
      (Alike.optional (head?_related hhandler)).bind fun hm? =>
        (Alike.optional (head?_related hfinalizer)).map fun hl? => hone ?_
    exact show Node.tryStmt _ _ _ = Node.tryStmt _ _ _ from
      congr (congrArg₂ Node.tryStmt hn (Node.unquotedOption_eq hm?)) (Node.unquotedOption_eq hl?)
  case h_14 => exact (required_alike h hoperand).map fun hn => hone (congrArg Node.throwStmt hn)
  case h_15 hk =>
    have hname := requiredField_alike h (h.childByField?_text "name" (by decide) hk rfl)
    refine hname.bind fun {name name'} hname =>
      (function_alike h hbelow hconforms .expression 0).map fun hn => hone ?_
    rw [hname.2]
    exact congrArg (Node.variableStmt _) (congrArg some hn)
  case h_16 => exact .error h.respelled.name_declarationOnly
  case h_17 => exact .error h.respelled.name_unsupported

theorem lowerAt_alike (hconforms : (Tree.node info children).Conforms) {pos : Position}
    (hpos : ∀ k ∈ pos.requires?, info.kind = k)
    (hexpr : Alike Node.Like (lowerExpr o (.node info children))
      (lowerExpr o (.node info' children')))
    (hstatement : Alike (List.Forall₂ Node.Like) (lowerStatement o (.node info children))
      (lowerStatement o (.node info' children'))) :
    Alike Node.Like (lowerAt o pos (.node info children))
      (lowerAt o pos (.node info' children')) := by
  have hkind : info'.kind = info.kind := h.kind
  have hoperand := required_alike h (values_alike h hbelow .value rfl seesThrough_isOperand)
  have hvalue := values_alike h hbelow .value rfl (seesThrough_inField "value")
  have hpart := parts_alike h hbelow hconforms
  have hrefused (kind kind' : String) := h.respelled.name_unsupportedAs kind kind'
  cases pos <;>
    simp only [lowerAt, lowerChildren, if_pos, List.head?_cons, required_some, hkind]
  case value => exact hexpr
  case element => exact .ite (hoperand.map fun hn => congrArg Node.spreadElementExpr hn) hexpr
  case property =>
    split
    case h_1 hk =>
      have hname := hpart .propertyName "key" hk rfl (.inl rfl)
      exact (required_alike h hname).bind fun hn => (required_alike h hvalue).map fun hm =>
        congrArg₂ Node.propAssignExpr hn hm
    case h_2 hk =>
      rw [show info'.text = info.text from
        h.text_of_word (by rw [show (Tree.node info children).kind = _ from hk]; rfl)]
      exact hexpr.map fun hn => congrArg (Node.propAssignExpr _) hn
    case h_3 => exact hoperand.map fun hn => congrArg Node.spreadAssignExpr hn
    case h_4 => exact .error (hrefused _ _)
    case h_5 => exact .error h.respelled.name_unsupported
  case propertyName =>
    exact .ite (hoperand.map fun hn => congrArg Node.computedPropertyNameExpr hn)
      (plainPropertyName_alike h)
  case substitution => exact hoperand
  case functionBody =>
    split
    case isTrue hk => exact block_alike h hbelow hk
    case isFalse =>
      exact hexpr.map fun hn => congrArg (fun n => Node.blockStmt [.returnStmt n]) hn
  case block => exact block_alike h hbelow (hpos _ rfl)
  case loopBody =>
    split
    case isTrue hk => exact block_alike h hbelow hk
    case isFalse =>
      exact hstatement.map fun hns => congrArg Node.blockStmt (Node.unquotedAll_eq hns)
  case branch => exact hstatement.map fun hns => single_like hns
  case elseClause =>
    have hkind : info.kind = .elseClause := hpos _ rfl
    exact required_alike h
      (members_alike h hbelow hkind (fun _ => rfl) .branch rfl seesThrough_isOperand)
  case declarator =>
    have hname := requiredField_alike h (h.childByField?_text "name" (by decide) (hpos _ rfl) rfl)
    refine hname.bind fun {name name'} hname => ?_
    rw [hname.1.kind, hname.2]
    split
    case isTrue =>
      exact (Alike.optional (head?_related hvalue)).map fun hn? =>
        congrArg (Node.variableStmt _) (Node.unquotedOption_eq hn?)
    case isFalse => exact .error (hname.1.respelled.name_unsupportedAs _ _)
  case catchClause =>
    have hkind : info.kind = .catchClause := hpos _ rfl
    have hblock := hpart .block "body" hkind rfl (.inr rfl)
    refine (catchVariable_alike h hkind).bind fun hn? => (required_alike h hblock).map fun hm => ?_
    exact congrArg₂ Node.catchClause (Node.unquotedOption_eq hn?) hm
  case finallyClause =>
    exact required_alike h (hpart .block "body" (hpos _ rfl) rfl (.inr rfl))

end Nodes

/-! ## Wrappers -/

/-- What an expression lowers to in a position of values, given what it lowers to. -/
def Position.hold (pos : Position) (x : Lowering Node) : Lowering Node :=
  match pos with
  | .functionBody => do return .blockStmt [.returnStmt (← x)]
  | _ => x

theorem lowerAt_of_isExpression {pos : Position} (hpos : pos.takesValue = true) {t : Tree}
    (h : t.kind.isExpression = true) : lowerAt o pos t = pos.hold (lowerExpr o t) := by
  obtain ⟨info, children⟩ := t
  have hne {k : Kind} (hk : k.isExpression = false) : info.kind ≠ k := by
    rintro rfl
    rw [show info.kind.isExpression = true from h] at hk
    cases hk
  unfold Position.takesValue at hpos
  split at hpos
  case h_4 => cases hpos
  all_goals simp only [lowerAt, lowerChildren, if_pos, List.head?_cons, required_some]
  case h_1 => rfl
  case h_2 => exact if_neg (hne rfl)
  case h_3 => exact if_neg (hne rfl)

theorem lowerExpr_of_wrapped? {t c : Tree} (h : t.wrapped? = some c) :
    lowerExpr o t = lowerExpr o c := by
  obtain ⟨info, children⟩ := t
  unfold wrapped? at h
  split at h
  case h_6 => cases h
  case h_5 hk =>
    have hlast : (children.filter isOperand).getLast? = some c := h
    rw [lowerExpr, show info.kind = _ from hk]
    simp only [getLast?_lowerChildren, hlast, Option.map_some, required_some, lowerAt_value]
  all_goals
    next hk =>
      have hfirst : children.find? isOperand = some c := (firstNamedChild?_eq _).symm.trans h
      rw [lowerExpr, show info.kind = _ from hk]
      simp only [head?_lowerChildren, hfirst, Option.map_some, required_some, lowerAt_value]

theorem lowerAt_of_wrapped? {pos : Position} (hpos : pos.takesValue = true) {t c : Tree}
    (h : t.wrapped? = some c) (hc : c.kind.isExpression = true) :
    lowerAt o pos t = lowerAt o pos c := by
  rw [lowerAt_of_isExpression hpos (isExpression_of_wrapped? h), lowerExpr_of_wrapped? h,
    lowerAt_of_isExpression hpos hc]

theorem survives (ho : o.LooksThrough) {t : Tree} (hbare : t.Everywhere BareIndex)
    (hconforms : t.Everywhere Conforms) : Survives o t := by
  -- The arguments of an invocation stand two levels below it, and they are lowered by it.
  induction t using Tree.induct_below with
  | node t ih =>
    have hbelow : ∀ c ∈ t.children, Survives o c := fun c hc =>
      (ih c hc).1 (hbare.child hc) (hconforms.child hc)
    have hargs : ∀ c ∈ t.callArguments, Survives o c := fun c hc =>
      forall_mem_callArguments ih c hc (hbare.argument hc) (hconforms.argument hc)
    obtain ⟨info, children⟩ := t
    have hstatement {t' : Tree} (h : UnwrapsInside (.node info children) t') :
        Alike (List.Forall₂ Node.Like) (lowerStatement o (.node info children))
          (lowerStatement o t') := by
      obtain ⟨info', children'⟩ := t'
      exact lowerStatement_alike h hbelow hconforms.here
    have hpart {t' : Tree} (h : UnwrapsInside (.node info children) t') {pos : Position}
        (hpos : ∀ k ∈ pos.requires?, info.kind = k) :
        Alike Node.Like (lowerAt o pos (.node info children)) (lowerAt o pos t') := by
      obtain ⟨info', children'⟩ := t'
      have hexpr := lowerExpr_alike h hbelow ho hbare hconforms.here hargs
      exact lowerAt_alike h hbelow hconforms.here hpos hexpr (hstatement h)
    refine ⟨fun {t'} h {pos} hpos => ?_, hpart, hstatement⟩
    cases h with
    | inside h =>
      refine hpart h ?_
      rw [Position.requires?_of_takesValue hpos]
      exact nofun
    | around named operand expression rest =>
      -- The wrapper gives way to what it holds, which is lowered as the wrapper is.
      rw [lowerAt_of_wrapped? hpos operand expression]
      exact (hbelow _ (mem_of_wrapped? operand)).value rest hpos

/-- Wrappers add nothing to an expression, wherever they stand, as long as no literal index of an
element access is wrapped. -/
theorem lowerExpr_unwraps (d : Declared) {t t' : Tree} (h : Unwraps t t')
    (hbare : t.Everywhere BareIndex) (hconforms : t.Everywhere Conforms) :
    Alike Node.Like (lowerExpr d.oracle t) (lowerExpr d.oracle t') := by
  have hvalue : Alike Node.Like (lowerAt d.oracle .value t) (lowerAt d.oracle .value t') :=
    (survives d.oracle_looksThrough hbare hconforms).value h rfl
  rwa [lowerAt_value, lowerAt_value] at hvalue

/-- A call, `save((tables!)["orders"], (row))`. -/
def wrappedSave : Tree :=
  .namedNode .callExpression none 0 32 "save((tables!)[\"orders\"], (row))"
    [.namedNode .identifier (some "function") 0 4 "save" [],
    .namedNode .arguments (some "arguments") 4 32 "((tables!)[\"orders\"], (row))"
      [.namedNode .subscriptExpression none 5 24 "(tables!)[\"orders\"]"
        [.namedNode .parenthesizedExpression (some "object") 5 14 "(tables!)"
          [.namedNode .nonNullExpression none 6 13 "tables!"
            [.namedNode .identifier none 6 12 "tables" []]],
        .namedNode .stringLiteral (some "index") 15 23 "\"orders\"" []],
      .namedNode .parenthesizedExpression none 26 31 "(row)"
        [.namedNode .identifier none 27 30 "row" []]]]

def bareSave : Tree :=
  .namedNode .callExpression none 0 27 "save(tables[\"orders\"], row)"
    [.namedNode .identifier (some "function") 0 4 "save" [],
    .namedNode .arguments (some "arguments") 4 27 "(tables[\"orders\"], row)"
      [.namedNode .subscriptExpression none 5 21 "tables[\"orders\"]"
        [.namedNode .identifier (some "object") 5 11 "tables" [],
        .namedNode .stringLiteral (some "index") 12 20 "\"orders\"" []],
      .namedNode .identifier none 23 26 "row" []]]

def orderTypes : Declared where
  bindings := [("tables", .name "Tables")]
  types := [("Tables", { properties := [("orders", .name "Orders")] }),
    ("Orders", { properties := [("kind", .literal "Table")] })]

theorem bareSave_unwraps :
    Unwraps wrappedSave bareSave ∧
      lowerExpr orderTypes.oracle bareSave =
        .ok (.callExpr (.identifier "save")
          [.argument (some (.referenceExpr "tables[\"orders\"]" "tables[\"orders\"]")) none,
          .argument (some (.identifier "row")) none]) ∧
      Alike Node.Like (lowerExpr orderTypes.oracle wrappedSave)
        (lowerExpr orderTypes.oracle bareSave) := by
  have word {i i' : Tree.Info} (h : i.Respelled i') (hword : i.kind ≠ .templateString) :
      UnwrapsInside (.node i []) (.node i' []) := .node h (absurd · hword) .nil
  have h : Unwraps wrappedSave bareSave := by
    refine .inside (.node (by decide) nofun (.other rfl (word (by decide) nofun)
      (.other rfl (.node (by decide) nofun (.value rfl rfl ?orders (.value rfl rfl ?row .nil)))
        .nil)))
    case orders =>
      refine .inside (.node (by decide) nofun (.value rfl rfl ?tables
        (.other rfl (word (by decide) nofun) .nil)))
      exact .around rfl rfl rfl (.around rfl rfl rfl (.inside (word (by decide) nofun)))
    case row => exact .around rfl rfl rfl (.inside (word (by decide) nofun))
  exact ⟨h, rfl, lowerExpr_unwraps orderTypes h (by decide) (by decide)⟩

end Reify
