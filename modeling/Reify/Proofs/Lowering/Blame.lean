/-
What a failure of lowering is blamed on.

A failure that is no accident names a node: the construct that is not supported, the operator
without a symbol, the invocation whose callee is overloaded, or the function without a body.
`Cause o d f` says that `f` is the failure that the node `d` causes.  Each failure has a cause
at a node of the tree that was lowered (`blames`), so where no node is overloaded, bodyless or
left uncovered, lowering can only fail by refusing a construct or an operator
(`Blamed.refuses`).
-/
import Reify.Proofs.Lowering.Parts
import Reify.Proofs.Tree.Layout

namespace Reify
namespace Lowering

variable {α β : Type} {C D : Failure → Prop}

/-! ## Failures of a step -/

def FailsBy (C : Failure → Prop) (r : Lowering α) : Prop := ∀ f, r = .error f → C f

namespace FailsBy

theorem ok (a : α) : FailsBy C (.ok a) := by
  intro f h
  cases h

theorem error {f : Failure} (h : C f) : FailsBy C (.error f : Lowering α) := by
  intro g hg
  rwa [← Except.error.inj hg]

theorem mono {r : Lowering α} (h : FailsBy C r) (himp : ∀ f, C f → D f) : FailsBy D r :=
  fun f hf => himp f (h f hf)

theorem bind {x : Lowering α} {g : α → Lowering β} (hx : FailsBy C x)
    (hg : ∀ a, x = .ok a → FailsBy C (g a)) : FailsBy C (x >>= g) := by
  intro f h
  cases x with
  | error e =>
    have hsame : f = e := (Except.error.inj h).symm
    exact hx f (hsame ▸ rfl)
  | ok a => exact hg a rfl f h

/-- A step that only wraps the outcome of another fails as that one does. -/
theorem map {x : Lowering α} {g : α → β} (hx : FailsBy C x) :
    FailsBy C (do return g (← x)) :=
  hx.bind fun _ _ => ok _

theorem required {i : Tree.Info} {r? : Option (Lowering α)} (hmissing : C (.unsupported i))
    (h : ∀ r ∈ r?, FailsBy C r) : FailsBy C (required i r?) := by
  cases r? with
  | none => exact error hmissing
  | some r => exact h r rfl

theorem optional {r? : Option (Lowering α)} (h : ∀ r ∈ r?, FailsBy C r) :
    FailsBy C (optional r?) := by
  cases r? with
  | none => exact ok none
  | some r => exact (h r rfl).map

theorem gather {rs : List (Lowering α)} (h : ∀ r ∈ rs, FailsBy C r) : FailsBy C (gather rs) := by
  induction rs with
  | nil => exact ok []
  | cons r rs ih =>
    rw [List.forall_mem_cons] at h
    exact h.1.bind fun _ _ => (ih h.2).map

end FailsBy
end Lowering

open Lowering

/-! ## Causes -/

/-- A node whose span runs forward and covers its children. -/
def Tree.Covers (t : Tree) : Prop :=
  t.span.start ≤ t.span.stop ∧ ∀ c ∈ t.children, c.span.Within t.span

instance (t : Tree) : Decidable t.Covers := inferInstanceAs (Decidable (_ ∧ _))

/-- Whether a function has a body; a signature is all head. -/
def Tree.hasBody (t : Tree) : Bool :=
  t.kind != .functionSignature && (t.childByField? "body").isSome

inductive Cause (o : Oracle) (d : Tree) : Failure → Prop
  | construct (kind : String) : Cause o d (.unsupportedAs d.info kind)
  | operator (token : String) : Cause o d (.operator d.info token)
  | overloaded {f : Failure} (many : Arguments.usableSignature o d = .error f) : Cause o d f
  | bodyless (function : d.isFunctionLike = true) (head : d.hasBody = false) :
    Cause o d (.declarationOnly d.info)
  | cut (uncovered : ¬d.Everywhere Tree.Covers) : Cause o d .underflow

def Blamed (o : Oracle) (t : Tree) (f : Failure) : Prop :=
  ∃ p d, t.at? p = some d ∧ Cause o d f

namespace Blamed

variable {o : Oracle} {t c : Tree} {f : Failure}

theorem here (h : Cause o t f) : Blamed o t f := ⟨[], t, rfl, h⟩

theorem child (hc : c ∈ t.children) (h : Blamed o c f) : Blamed o t f := by
  obtain ⟨p, d, hd, hcause⟩ := h
  obtain ⟨i, hi⟩ := List.mem_iff_getElem?.mp hc
  exact ⟨i :: p, d, by rw [Tree.at?_cons_of_child hi, hd], hcause⟩

theorem unsupported (o : Oracle) (t : Tree) : Blamed o t (.unsupported t.info) :=
  here (.construct t.kind.words)

theorem unsupportedAs (o : Oracle) (t : Tree) (kind : String) :
    Blamed o t (.unsupportedAs t.info kind) :=
  here (.construct kind)

end Blamed

structure Blames (o : Oracle) (t : Tree) : Prop where
  part : ∀ pos, FailsBy (Blamed o t) (lowerAt o pos t)
  statement : FailsBy (Blamed o t) (lowerStatement o t)

variable {o : Oracle}

/-! ## What a node reads of its children -/

section Children

variable {t : Tree}

theorem requiredField_blamed {name : String} : FailsBy (Blamed o t) (requiredField t name) := by
  unfold requiredField
  split
  · exact .ok _
  · exact .error (.unsupported o t)

theorem rejectOptionalChain_blamed : FailsBy (Blamed o t) (rejectOptionalChain t) := by
  unfold rejectOptionalChain
  split
  · exact .error (.unsupportedAs o t _)
  · exact .ok _

theorem rejectTaggedTemplate_blamed : FailsBy (Blamed o t) (rejectTaggedTemplate t) := by
  unfold rejectTaggedTemplate
  split
  · split
    · exact .ok _
    · exact .error (.unsupportedAs o t _)
  · exact .error (.unsupportedAs o t _)

theorem catchVariable_blamed : FailsBy (Blamed o t) (catchVariable t) := by
  unfold catchVariable
  split
  · exact .ok _
  · next parameter hparameter =>
    split
    · exact .ok _
    · have hchild : parameter ∈ t.children := Tree.mem_of_childByField? hparameter
      exact .error (.child hchild (.unsupportedAs o parameter _))

theorem plainPropertyName_blamed : FailsBy (Blamed o t) (plainPropertyName t.info) := by
  unfold plainPropertyName
  split
  case h_4 => exact .error (.unsupported o t)
  all_goals exact .ok _

theorem patternName_blamed : FailsBy (Blamed o t) (Function.patternName t) := by
  unfold Function.patternName
  split
  case h_1 => exact .ok _
  case h_2 =>
    split
    · split
      · exact .ok _
      · exact .error (.unsupportedAs o t _)
    · exact .error (.unsupportedAs o t _)
  case h_3 | h_4 => exact .error (.unsupportedAs o t _)
  case h_5 => exact .error (.unsupported o t)

theorem parameterName_blamed : FailsBy (Blamed o t) (Function.parameterName t) := by
  have hpattern : FailsBy (Blamed o t) (Lowering.required t.info
      ((t.childByField? "pattern").map Function.patternName)) := by
    refine .required (.unsupported o t) fun r hr => ?_
    obtain ⟨pattern, hpattern, rfl⟩ := Option.map_eq_some_iff.mp hr
    exact patternName_blamed.mono fun f hf => hf.child (Tree.mem_of_childByField? hpattern)
  unfold Function.parameterName
  split
  · exact hpattern
  · exact hpattern
  · exact patternName_blamed

theorem parameterNames_blamed : FailsBy (Blamed o t) (Function.parameterNames t) := by
  unfold Function.parameterNames
  split
  · exact .ok _
  · split
    · next list hlist =>
      refine .gather fun r hr => ?_
      obtain ⟨parameter, hparameter, rfl⟩ := List.mem_map.mp hr
      have hchild := Tree.mem_of_mem_namedChildren hparameter
      exact parameterName_blamed.mono fun f hf =>
        .child (Tree.mem_of_childByField? hlist) (.child hchild hf)
    · exact .ok _

/-- A function fails where a parameter or the body does, or at its head. -/
theorem assemble_function_blamed {flavor : FunctionFlavor} {drop : Nat}
    {body? : Option (Lowering Node)} (hlike : t.isFunctionLike = true) (hbody : ∀ r ∈ body?, FailsBy (Blamed o t) r)
    (hhead : body? = none → t.childByField? "body" = none) :
    FailsBy (Blamed o t) (Function.assemble flavor drop t body?) := by
  unfold Function.assemble
  split
  case h_4 | h_5 => exact .error (.unsupportedAs o t _)
  case h_6 harrow hexpression hdeclaration hgenerator hgeneratorDeclaration =>
    have hsignature : t.kind = .functionSignature := by
      have hkind := hlike
      unfold Tree.isFunctionLike at hkind
      split at hkind
      case h_4 hk => exact hk
      case h_7 => cases hkind
      all_goals contradiction
    exact .error (.here (.bodyless hlike (by simp [Tree.hasBody, hsignature])))
  all_goals
    split
    · exact .error (.here (.bodyless hlike (by simp [Tree.hasBody, hhead rfl])))
    · next body =>
      split
      · exact .error (.unsupportedAs o t _)
      · exact parameterNames_blamed.bind fun _ _ => (hbody body rfl).map

theorem assemble_arguments_fails {C : Failure → Prop} {supplied : List (Lowering Node)}
    (hsignature : FailsBy C (Arguments.usableSignature o t)) (h : ∀ r ∈ supplied, FailsBy C r) :
    FailsBy C (Arguments.assemble o t supplied) := by
  have hvalue (index : Nat) (p : Parameter) :
      FailsBy C (Arguments.valueFor supplied index p) := by
    unfold Arguments.valueFor
    split
    · exact (FailsBy.gather fun r hr => h r (List.mem_of_mem_drop hr)).map
    · exact .optional fun r hr => h r (List.mem_of_getElem? hr)
  have hbound (ps : List Parameter) (index : Nat) :
      FailsBy C (Arguments.bindFrom supplied index ps) := by
    induction ps generalizing index with
    | nil => exact .ok _
    | cons p ps ih => exact (hvalue index p).bind fun _ _ => (ih (index + 1)).map
  refine hsignature.bind fun s? _ => ?_
  split
  · exact hbound _ 0
  · exact (FailsBy.gather h).map

theorem piece_fails {C : Failure → Prop} {text : List Char} {origin start stop : Nat}
    (hcut : ¬(origin ≤ start ∧ origin ≤ stop) → C .underflow) :
    FailsBy C (Template.piece text origin start stop) := by
  unfold Template.piece
  split
  · next hbefore => exact .error (hcut (by omega))
  · exact .ok _

/-- A template fails at a substitution, or where one lies before the template. -/
theorem parts_fails {C : Failure → Prop} {text : List Char} {origin stop cursor : Nat}
    {substitutions : List (Span × Lowering Node)}
    (hcut : ¬(origin ≤ cursor ∧ ∀ x ∈ substitutions,
      origin ≤ x.1.start.toNat ∧ origin ≤ x.1.stop.toNat) → C .underflow)
    (hnodes : ∀ x ∈ substitutions, FailsBy C x.2) :
    FailsBy C (Template.parts text origin stop cursor substitutions) := by
  induction substitutions generalizing cursor with
  | nil =>
    have hlast : FailsBy C (Template.piece text origin cursor (max (stop - 1) cursor)) :=
      piece_fails fun hbefore => hcut fun hinside => hbefore ⟨hinside.1, by omega⟩
    exact hlast.map
  | cons x rest ih =>
    obtain ⟨span, outcome⟩ := x
    rw [List.forall_mem_cons] at hnodes
    simp only [List.forall_mem_cons] at hcut
    have hpiece : FailsBy C (Template.piece text origin cursor span.start.toNat) :=
      piece_fails fun hbefore => hcut fun hinside => hbefore ⟨hinside.1, hinside.2.1.1⟩
    have hrest : FailsBy C (Template.parts text origin stop span.stop.toNat rest) :=
      ih (fun hbefore => hcut fun hinside => hbefore ⟨hinside.2.1.2, hinside.2.2⟩) hnodes.2
    exact hpiece.bind fun _ _ => hnodes.1.bind fun _ _ => hrest.map

theorem assemble_template_blamed {rs : List (Lowering Node)}
    (h : ∀ r ∈ rs, FailsBy (Blamed o t) r) :
    FailsBy (Blamed o t) (Template.assemble t.info
      (((t.children.filter isSubstitution).map Tree.span).zip rs)) := by
  refine (parts_fails (fun hbefore => ?_) fun x hx => h x.2 (List.of_mem_zip hx).2).map
  refine .here (.cut fun hcovers => hbefore ⟨Nat.le_succ _, fun x hx => ?_⟩)
  obtain ⟨c, hc, hspan⟩ := List.mem_map.mp (List.of_mem_zip hx).1
  have hchild : c ∈ t.children := List.mem_of_mem_filter hc
  have hstart : t.span.start.toNat ≤ c.span.start.toNat :=
    UInt32.le_iff_toNat_le.mp (hcovers.here.2 c hchild).1
  have hforward : c.span.start.toNat ≤ c.span.stop.toNat :=
    UInt32.le_iff_toNat_le.mp (hcovers.child hchild).here.1
  rw [← hspan]
  exact ⟨hstart, Nat.le_trans hstart hforward⟩

end Children

/-! ## Trees -/

section Trees

variable {info : Tree.Info} {children : List Tree}
  (hbelow : ∀ c ∈ children, Blames o c)

include hbelow

theorem mem_lowerChildren_blamed {pos : Position} {p : Tree → Bool} :
    ∀ r ∈ lowerChildren o pos p children, FailsBy (Blamed o (.node info children)) r := by
  intro r hr
  rw [lowerChildren_eq] at hr
  obtain ⟨c, hc, rfl⟩ := List.mem_map.mp hr
  have hchild : c ∈ children := List.mem_of_mem_filter hc
  exact ((hbelow c hchild).part pos).mono fun f hf => hf.child hchild

theorem head?_lowerChildren_blamed {pos : Position} {p : Tree → Bool} :
    ∀ r ∈ (lowerChildren o pos p children).head?, FailsBy (Blamed o (.node info children)) r :=
  fun r hr => mem_lowerChildren_blamed hbelow r (List.mem_of_head? hr)

theorem required_blamed {pos : Position} {p : Tree → Bool} :
    FailsBy (Blamed o (.node info children))
      (required info (lowerChildren o pos p children).head?) :=
  .required (.unsupported o (.node info children)) (head?_lowerChildren_blamed hbelow)

theorem optional_blamed {pos : Position} {p : Tree → Bool} :
    FailsBy (Blamed o (.node info children))
      (Lowering.optional (lowerChildren o pos p children).head?) :=
  .optional (head?_lowerChildren_blamed hbelow)

theorem gather_blamed {pos : Position} {p : Tree → Bool} :
    FailsBy (Blamed o (.node info children)) (gather (lowerChildren o pos p children)) :=
  .gather (mem_lowerChildren_blamed hbelow)

theorem lowerStatements_blamed :
    FailsBy (Blamed o (.node info children)) (lowerStatements o children) := by
  rw [lowerStatements_eq]
  refine FailsBy.map (FailsBy.gather fun r hr => ?_)
  obtain ⟨c, hc, rfl⟩ := List.mem_map.mp hr
  have hchild : c ∈ children := List.mem_of_mem_filter hc
  exact (hbelow c hchild).statement.mono fun f hf => hf.child hchild

theorem function_blamed {flavor : FunctionFlavor} {drop : Nat}
    (hlike : (Tree.node info children).isFunctionLike = true) :
    FailsBy (Blamed o (.node info children))
      (Function.assemble flavor drop (.node info children)
        (lowerChildren o .functionBody (Tree.inField "body") children).head?) := by
  refine assemble_function_blamed hlike (head?_lowerChildren_blamed hbelow) fun hnone => ?_
  rw [head?_lowerChildren, Option.map_eq_none_iff] at hnone
  exact hnone

theorem lowerExpr_blamed
    (hargs : ∀ c ∈ (Tree.node info children).callArguments, Blames o c) :
    FailsBy (Blamed o (.node info children)) (lowerExpr o (.node info children)) := by
  have hvalue (name : String) : FailsBy (Blamed o (.node info children))
      (Lowering.required info (lowerChildren o .value (Tree.inField name) children).head?) :=
    required_blamed hbelow
  have hbound (hinvocation : (Tree.node info children).isInvocation = true) :
      FailsBy (Blamed o (.node info children))
        (Arguments.assemble o (.node info children) (lowerArguments o children)) := by
    refine assemble_arguments_fails (fun f hf => .here (.overloaded hf)) fun r hr => ?_
    rw [show children = (Tree.node info children).children from rfl,
      lowerArguments_eq o hinvocation] at hr
    obtain ⟨c, hc, rfl⟩ := List.mem_map.mp hr
    obtain ⟨list, hlist, hchild⟩ := Tree.exists_list_of_mem_callArguments hc
    exact ((hargs c hc).part .element).mono fun f hf => .child hlist (.child hchild hf)
  unfold lowerExpr
  dsimp only
  split
  case h_1 | h_2 => split <;> exact .ok _
  case h_3 | h_4 | h_5 | h_6 | h_7 | h_8 => exact .ok _
  case h_9 => exact assemble_template_blamed (mem_lowerChildren_blamed hbelow)
  case h_10 | h_11 | h_12 | h_13 => exact required_blamed hbelow
  case h_14 =>
    refine .required (.unsupported o (.node info children)) fun r hr => ?_
    exact mem_lowerChildren_blamed hbelow r (List.mem_of_getLast? hr)
  case h_15 =>
    refine rejectOptionalChain_blamed.bind fun _ _ => ?_
    split
    · exact .ok _
    · exact (hvalue "object").bind fun _ _ => requiredField_blamed.map
  case h_16 =>
    refine rejectOptionalChain_blamed.bind fun _ _ => ?_
    split
    · exact .ok _
    · exact (hvalue "object").bind fun _ _ => (hvalue "index").map
  case h_17 hk =>
    have hinvocation : (Tree.node info children).isInvocation = true := by
      rw [Tree.isInvocation, Tree.kind, Tree.info, hk]
    exact rejectOptionalChain_blamed.bind fun _ _ => rejectTaggedTemplate_blamed.bind fun _ _ =>
      (hvalue "function").bind fun _ _ => (hbound hinvocation).map
  case h_18 hk =>
    have hinvocation : (Tree.node info children).isInvocation = true := by
      rw [Tree.isInvocation, Tree.kind, Tree.info, hk]
    split
    · exact (hbound hinvocation).bind fun _ _ => (hvalue "constructor").map
    · exact (FailsBy.ok []).bind fun _ _ => (hvalue "constructor").map
  case h_19 =>
    refine requiredField_blamed.bind fun token _ => ?_
    split
    · exact .error (.here (.operator token.text))
    · exact (hvalue "left").bind fun _ _ => (hvalue "right").map
  case h_20 => exact (hvalue "left").bind fun _ _ => (hvalue "right").map
  case h_21 | h_22 =>
    exact requiredField_blamed.bind fun token _ => .error (.here (.operator token.text))
  case h_23 =>
    refine requiredField_blamed.bind fun token _ => requiredField_blamed.bind fun _ _ => ?_
    split
    · exact (hvalue "argument").map
    · split
      · exact .error (.here (.operator token.text))
      · exact (hvalue "argument").map
  case h_24 =>
    exact (hvalue "condition").bind fun _ _ => (hvalue "consequence").bind fun _ _ =>
      (hvalue "alternative").map
  case h_25 | h_26 => exact (gather_blamed hbelow).map
  case h_27 | h_28 | h_29 =>
    next hk =>
      exact function_blamed hbelow (by rw [Tree.isFunctionLike, Tree.kind, Tree.info, hk])
  case h_30 => exact .error (.unsupported o (.node info children))

theorem lowerStatement_blamed :
    FailsBy (Blamed o (.node info children)) (lowerStatement o (.node info children)) := by
  have hfield (pos : Position) (name : String) : FailsBy (Blamed o (.node info children))
      (Lowering.required info (lowerChildren o pos (Tree.inField name) children).head?) :=
    required_blamed hbelow
  have hoperand : FailsBy (Blamed o (.node info children))
      (Lowering.required info (lowerChildren o .value Tree.isOperand children).head?) :=
    required_blamed hbelow
  unfold lowerStatement
  dsimp only
  split
  case h_1 => exact hoperand.map
  case h_2 => exact (lowerStatements_blamed hbelow).map
  case h_3 | h_4 => exact gather_blamed hbelow
  case h_5 => exact .ok _
  case h_6 => exact (optional_blamed hbelow).map
  case h_7 =>
    exact (hfield .value "condition").bind fun _ _ =>
      (hfield .branch "consequence").bind fun _ _ => (optional_blamed hbelow).map
  case h_8 =>
    exact (hfield .value "condition").bind fun _ _ => (hfield .loopBody "body").map
  case h_9 =>
    exact (hfield .loopBody "body").bind fun _ _ => (hfield .value "condition").map
  case h_10 =>
    split
    · exact .error (.unsupportedAs o (.node info children) _)
    · refine requiredField_blamed.bind fun left hleft => ?_
      split
      · refine (hfield .value "right").bind fun _ _ =>
          (hfield .loopBody "body").bind fun _ _ => ?_
        split <;> exact .ok _
      · have hchild : left ∈ children :=
          Tree.mem_of_childByField? (requiredField_eq_ok.mp hleft)
        exact .error (.child hchild (.unsupportedAs o left _))
  case h_11 | h_12 =>
    split
    · exact .error (.unsupportedAs o (.node info children) _)
    · exact .ok _
  case h_13 =>
    exact (hfield .block "body").bind fun _ _ => (optional_blamed hbelow).bind fun _ _ =>
      (optional_blamed hbelow).map
  case h_14 => exact hoperand.map
  case h_15 hk =>
    have hlike : (Tree.node info children).isFunctionLike = true := by
      rw [Tree.isFunctionLike, Tree.kind, Tree.info, hk]
    exact requiredField_blamed.bind fun _ _ => (function_blamed hbelow hlike).map
  case h_16 hk =>
    have hlike : (Tree.node info children).isFunctionLike = true := by
      rw [Tree.isFunctionLike, Tree.kind, Tree.info, hk]
    exact .error (.here (.bodyless hlike (by simp [Tree.hasBody, Tree.kind, Tree.info, hk])))
  case h_17 => exact .error (.unsupported o (.node info children))

theorem lowerAt_blamed {pos : Position}
    (hexpr : FailsBy (Blamed o (.node info children)) (lowerExpr o (.node info children)))
    (hstatement : FailsBy (Blamed o (.node info children))
      (lowerStatement o (.node info children))) :
    FailsBy (Blamed o (.node info children)) (lowerAt o pos (.node info children)) := by
  have hfield (pos : Position) (name : String) : FailsBy (Blamed o (.node info children))
      (Lowering.required info (lowerChildren o pos (Tree.inField name) children).head?) :=
    required_blamed hbelow
  have hoperand (pos : Position) : FailsBy (Blamed o (.node info children))
      (Lowering.required info (lowerChildren o pos Tree.isOperand children).head?) :=
    required_blamed hbelow
  have hblock : FailsBy (Blamed o (.node info children)) (lowerStatements o children) :=
    lowerStatements_blamed hbelow
  cases pos <;>
    simp only [lowerAt, lowerChildren, if_pos, List.head?_cons, required_some]
  case value => exact hexpr
  case element =>
    split
    · exact (hoperand .value).map
    · exact hexpr
  case property =>
    split
    case h_1 => exact (hfield .propertyName "key").bind fun _ _ => (hfield .value "value").map
    case h_2 => exact hexpr.map
    case h_3 => exact (hoperand .value).map
    case h_4 => exact .error (.unsupportedAs o (.node info children) _)
    case h_5 => exact .error (.unsupported o (.node info children))
  case propertyName =>
    split
    · exact (hoperand .value).map
    · exact plainPropertyName_blamed
  case substitution => exact hoperand .value
  case functionBody =>
    split
    · exact hblock.map
    · exact hexpr.map
  case block => exact hblock.map
  case loopBody =>
    split
    · exact hblock.map
    · exact hstatement.map
  case branch => exact hstatement.map
  case elseClause => exact hoperand .branch
  case declarator =>
    refine requiredField_blamed.bind fun name hname => ?_
    split
    · exact (optional_blamed hbelow).map
    · have hchild : name ∈ children :=
        Tree.mem_of_childByField? (requiredField_eq_ok.mp hname)
      exact .error (.child hchild (.unsupportedAs o name _))
  case catchClause => exact catchVariable_blamed.bind fun _ _ => (hfield .block "body").map
  case finallyClause => exact hfield .block "body"

end Trees

/-- Each failure of lowering has a cause at a node of the tree. -/
theorem blames (o : Oracle) (t : Tree) : Blames o t := by
  induction t using Tree.induct_below with
  | node t ih =>
    have hbelow : ∀ c ∈ t.children, Blames o c := fun c hc => (ih c hc).1
    have hargs : ∀ c ∈ t.callArguments, Blames o c := Tree.forall_mem_callArguments ih
    obtain ⟨info, children⟩ := t
    have hexpr := lowerExpr_blamed hbelow hargs
    have hstatement : FailsBy (Blamed o (.node info children))
        (lowerStatement o (.node info children)) := lowerStatement_blamed hbelow
    exact ⟨fun _ => lowerAt_blamed hbelow hexpr hstatement, hstatement⟩

theorem lowerExpr_fails (o : Oracle) (t : Tree) : FailsBy (Blamed o t) (lowerExpr o t) := by
  obtain ⟨info, children⟩ := t
  exact lowerExpr_blamed (fun c _ => blames o c) fun c _ => blames o c

theorem lowerFunction_fails (o : Oracle) (flavor : FunctionFlavor) (drop : Nat) {t : Tree}
    (h : t.isFunctionLike = true) : FailsBy (Blamed o t) (lowerFunction o flavor drop t) := by
  obtain ⟨info, children⟩ := t
  exact function_blamed (fun c _ => blames o c) h

/-! ## Refusals -/

/-- A node that is covered by its own span, whose callee is not overloaded, and that has a body
if it is a function. -/
structure Sound (o : Oracle) (d : Tree) : Prop where
  covers : d.Covers
  bound : (Arguments.usableSignature o d).isOk = true
  body : d.isFunctionLike = true → d.hasBody = true

instance (o : Oracle) (d : Tree) : Decidable (Sound o d) :=
  decidable_of_iff (d.Covers ∧ (Arguments.usableSignature o d).isOk = true ∧
      (d.isFunctionLike = true → d.hasBody = true))
    ⟨fun h => ⟨h.1, h.2.1, h.2.2⟩, fun h => ⟨h.covers, h.bound, h.body⟩⟩

def LoweringError.isUnsupported : LoweringError → Bool
  | unsupportedConstruct .. | unsupportedOperator .. => true
  | multipleSignatures .. | declarationOnlyFunction .. => false

def Failure.Refuses (f : Failure) : Prop := ∃ e, f = .refused e ∧ e.isUnsupported = true

theorem refusal_of_covers {d : Tree} (h : d.Covers) (error : String → Extent → LoweringError) :
    ∃ e, Failure.refusal d.info error = .refused (error d.text e) := by
  have hextent : d.info.span.extent? =
      some ⟨d.span.start.toNat, d.span.stop.toNat - d.span.start.toNat⟩ := if_pos h.1
  exact ⟨_, by rw [Failure.refusal, hextent]; rfl⟩

/-- Where every node is sound, what fails refuses a construct or an operator. -/
theorem Blamed.refuses {t : Tree} {f : Failure} (h : Blamed o t f)
    (hsound : t.Everywhere (Sound o)) : f.Refuses := by
  obtain ⟨p, d, hd, hcause⟩ := h
  have hhere : Sound o d := hsound p d hd
  cases hcause with
  | construct kind =>
    obtain ⟨e, he⟩ := refusal_of_covers hhere.covers (.unsupportedConstruct kind)
    exact ⟨_, he, rfl⟩
  | operator token =>
    obtain ⟨e, he⟩ := refusal_of_covers hhere.covers (.unsupportedOperator token)
    exact ⟨_, he, rfl⟩
  | overloaded many =>
    have hbound := hhere.bound
    rw [many] at hbound
    cases hbound
  | bodyless function head =>
    rw [hhere.body function] at head
    cases head
  | cut uncovered => exact absurd (fun q n hn => (hsound.at? hd q n hn).covers) uncovered

end Reify
