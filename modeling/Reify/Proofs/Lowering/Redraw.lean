/-
Lowering a tree that was drawn again.

Lowering reads kinds, fields, tokens and texts, passes over comments, and cuts templates
relative to their own start.  So a tree lowers to the same node when it is moved and loses its
comments, and what is refused is refused `k` bytes further on (`redraws`).  The oracle must
answer for the tree as it does for the redrawn tree (`Oracle.Steady`).
-/
import Reify.Proofs.Tree.Redraw

namespace Reify

open Lowering

def LoweringError.moved (k : Nat) : LoweringError → LoweringError
  | unsupportedConstruct kind text span => unsupportedConstruct kind text (span.moved k)
  | unsupportedOperator operator text span => unsupportedOperator operator text (span.moved k)
  | multipleSignatures count text span => multipleSignatures count text (span.moved k)
  | declarationOnlyFunction text span => declarationOnlyFunction text (span.moved k)

def Failure.moved (k : Nat) : Failure → Failure
  | refused error => refused (error.moved k)
  | fault message => fault message

theorem LoweringError.moved_zero (e : LoweringError) : e.moved 0 = e := by cases e <;> rfl

theorem LoweringError.toErrorValue_moved (k : Nat) (e : LoweringError) :
    (e.moved k).toErrorValue = e.toErrorValue := by cases e <;> rfl

namespace Failure

theorem moved_zero (f : Failure) : f.moved 0 = f := by
  cases f with
  | refused error => rw [moved, error.moved_zero]
  | fault message => rfl

/-- What stands for a failure does not show its place. -/
theorem toNode_moved (k : Nat) (f : Failure) : (f.moved k).toNode = f.toNode := by
  cases f with
  | refused error => rw [moved, toNode, error.toErrorValue_moved, toNode]
  | fault message => rfl

variable {k : Nat} {i : Tree.Info}

theorem refusal_moved (h : i.span.Fits k) {error : String → Extent → LoweringError}
    (herror : ∀ text e, (error text e).moved k = error text (e.moved k)) :
    refusal (i.placed (.moved k)) error = (refusal i error).moved k := by
  have hextent : (i.placed (.moved k)).span.extent? = i.span.extent?.map (Extent.moved k) :=
    Span.extent?_moved h
  rw [refusal, refusal, hextent]
  cases i.span.extent? with
  | none => rfl
  | some e => exact congrArg refused (herror i.text e).symm

theorem unsupportedAs_moved (h : i.span.Fits k) (kind : String) :
    unsupportedAs (i.placed (.moved k)) kind = (unsupportedAs i kind).moved k :=
  refusal_moved h fun _ _ => rfl

theorem unsupported_moved (h : i.span.Fits k) :
    unsupported (i.placed (.moved k)) = (unsupported i).moved k :=
  unsupportedAs_moved h i.kind.words

theorem operator_moved (h : i.span.Fits k) (token : String) :
    operator (i.placed (.moved k)) token = (operator i token).moved k :=
  refusal_moved h fun _ _ => rfl

theorem multipleSignatures_moved (h : i.span.Fits k) (count : Nat) :
    multipleSignatures (i.placed (.moved k)) count = (multipleSignatures i count).moved k :=
  refusal_moved h fun _ _ => rfl

theorem declarationOnly_moved (h : i.span.Fits k) :
    declarationOnly (i.placed (.moved k)) = (declarationOnly i).moved k :=
  refusal_moved h fun _ _ => rfl

end Failure

/-! ## Steps -/

namespace Lowering

variable {α β : Type} {k : Nat}

/-- The step `x` succeeds as `y` does, or fails as `y` does `k` bytes further on. -/
def Follows (k : Nat) (x y : Lowering α) : Prop := x = y.mapError (Failure.moved k)

namespace Follows

theorem ok (a : α) : Follows k (.ok a) (.ok a) := rfl

theorem error {f g : Failure} (h : f = g.moved k) : Follows k (.error f : Lowering α) (.error g) :=
  congrArg Except.error h

theorem bind {x y : Lowering α} {f g : α → Lowering β} (hx : Follows k x y)
    (h : ∀ a, Follows k (f a) (g a)) : Follows k (x >>= f) (y >>= g) := by
  cases hx
  cases y with
  | error e => rfl
  | ok a => exact h a

theorem eq {x y : Lowering α} (h : Follows 0 x y) : x = y := by
  cases h
  cases y with
  | error f => exact congrArg Except.error f.moved_zero
  | ok a => rfl

theorem map {x y : Lowering α} {f : α → β} (hx : Follows k x y) :
    Follows k (do return f (← x)) (do return f (← y)) :=
  hx.bind fun _ => ok _

theorem ite {c : Prop} [Decidable c] {x x' y y' : Lowering α} (hpos : Follows k x y)
    (hneg : Follows k x' y') : Follows k (if c then x else x') (if c then y else y') := by
  split
  · exact hpos
  · exact hneg

theorem required {i : Tree.Info} (h : i.span.Fits k) (r? : Option (Lowering α)) :
    Follows k (required (i.placed (.moved k)) (r?.map (Except.mapError (Failure.moved k))))
      (required i r?) := by
  cases r? with
  | none => exact error (Failure.unsupported_moved h)
  | some r => rfl

theorem optional (r? : Option (Lowering α)) :
    Follows k (optional (r?.map (Except.mapError (Failure.moved k)))) (optional r?) := by
  cases r? with
  | none => exact ok none
  | some r =>
    have hr : Follows k (r.mapError (Failure.moved k)) r := rfl
    exact hr.map

theorem gather (rs : List (Lowering α)) :
    Follows k (gather (rs.map (Except.mapError (Failure.moved k)))) (gather rs) := by
  induction rs with
  | nil => exact ok []
  | cons r rs ih =>
    have hr : Follows k (r.mapError (Failure.moved k)) r := rfl
    exact hr.bind fun _ => ih.map

end Follows

/-! ## Templates -/

theorem piece_follows (text : List Char) (k origin start stop : Nat) :
    Follows k (Template.piece text (origin + k) (start + k) (stop + k))
      (Template.piece text origin start stop) := by
  unfold Template.piece
  simp only [Nat.add_lt_add_iff_right, Nat.add_sub_add_right]
  split
  · exact .error rfl
  · exact .ok _

theorem parts_follows (text : List Char) {k : Nat} (origin stop cursor : Nat)
    {substitutions : List (Span × Lowering Node)}
    (hfits : ∀ x ∈ substitutions, x.1.Fits k) :
    Follows k
      (Template.parts text (origin + k) (stop + k) (cursor + k)
        (substitutions.map (Prod.map (Span.moved k) (Except.mapError (Failure.moved k)))))
      (Template.parts text origin stop cursor substitutions) := by
  induction substitutions generalizing cursor with
  | nil =>
    -- Where `stop` is zero, `stop - 1` does not move along, but the cursor decides then.
    have hend : max (stop + k - 1) (cursor + k) = max (stop - 1) cursor + k := by omega
    rw [List.map_nil, Template.parts, Template.parts, hend]
    exact (piece_follows text k origin cursor (max (stop - 1) cursor)).map
  | cons x rest ih =>
    obtain ⟨span, outcome⟩ := x
    rw [List.forall_mem_cons] at hfits
    obtain ⟨hstart, hstop⟩ := Span.toNat_moved hfits.1
    have hnode : Follows k (outcome.mapError (Failure.moved k)) outcome := rfl
    rw [List.map_cons, Prod.map_apply, Template.parts, Template.parts, hstart, hstop]
    exact (piece_follows text k origin cursor span.start.toNat).bind fun _ =>
      hnode.bind fun _ => (ih _ hfits.2).map

end Lowering

/-! ## What can be redrawn -/

/-- A node can be redrawn: its span stays within 32 bits, and it loses bare comments only. -/
structure Redrawable (keep : Tree.Info → Bool) (k : Nat) (n : Tree) : Prop where
  fits : n.span.Fits k
  loses : n.LosesComments keep

variable {keep : Tree.Info → Bool} {k : Nat} {o : Oracle}

theorem Redrawable.everywhere_loses {t : Tree} (h : t.Everywhere (Redrawable keep k)) :
    t.Everywhere (Tree.LosesComments keep) := fun p n hn => (h p n hn).loses

/-! ## What an oracle answers -/

namespace Oracle

/-- What the oracle answers for trees does not depend on spans. -/
structure SpanBlind (o : Oracle) : Prop where
  typeOf : ∀ t t' : Tree, t.unplaced = t'.unplaced → o.typeOf t = o.typeOf t'
  resolvedSignature : ∀ t t' : Tree, t.unplaced = t'.unplaced →
    o.resolvedSignature t = o.resolvedSignature t'

/-- The oracle answers for a redrawn tree as it does for the tree. -/
structure Steady (o : Oracle) (keep : Tree.Info → Bool) (k : Nat) : Prop where
  typeOf : ∀ t : Tree, t.Everywhere (Tree.LosesComments keep) →
    o.typeOf (t.redraw keep (.moved k)) = o.typeOf t
  resolvedSignature : ∀ t : Tree, t.Everywhere (Tree.LosesComments keep) →
    o.resolvedSignature (t.redraw keep (.moved k)) = o.resolvedSignature t

theorem SpanBlind.steady (ho : o.SpanBlind) (k : Nat) : o.Steady (fun _ => true) k where
  typeOf t _ := ho.typeOf _ t (t.unplaced_moved k)
  resolvedSignature t _ := ho.resolvedSignature _ t (t.unplaced_moved k)

theorem noTypes_spanBlind : noTypes.SpanBlind where
  typeOf _ _ _ := rfl
  resolvedSignature _ _ _ := rfl

theorem noTypes_steady : noTypes.Steady keep k where
  typeOf _ _ := rfl
  resolvedSignature _ _ := rfl

end Oracle

namespace Declared

theorem oracle_spanBlind (d : Declared) : d.oracle.SpanBlind where
  typeOf t t' h := by
    have hforget (t : Tree) : d.typeOf t.unplaced = d.typeOf t :=
      d.typeOf_redraw t.everywhere_losesComments_all
    exact (hforget t).symm.trans (h ▸ hforget t')
  resolvedSignature t t' h := by
    have hforget (t : Tree) : d.resolvedSignature t.unplaced = d.resolvedSignature t :=
      d.resolvedSignature_redraw t.everywhere_losesComments_all
    exact (hforget t).symm.trans (h ▸ hforget t')

theorem oracle_steady (d : Declared) : d.oracle.Steady keep k where
  typeOf _ h := d.typeOf_redraw h
  resolvedSignature _ h := d.resolvedSignature_redraw h

end Declared

namespace Oracle.Steady

variable (ho : o.Steady keep k) {t : Tree} (h : t.Everywhere (Tree.LosesComments keep))

include ho h

theorem resolveReference?_redraw :
    o.resolveReference? (t.redraw keep (.moved k)) = o.resolveReference? t := by
  rw [resolveReference?, resolveReference?, ho.typeOf t h, Tree.referencePath_redraw h,
    Tree.text_redraw]

theorem typeSnapshot?_redraw :
    o.typeSnapshot? (t.redraw keep (.moved k)) = o.typeSnapshot? t := by
  rw [typeSnapshot?, typeSnapshot?, ho.typeOf t h]

theorem typeOf_callee_redraw :
    (t.redraw keep (.moved k)).callee?.bind o.typeOf = t.callee?.bind o.typeOf := by
  rw [Tree.callee?_redraw h.here]
  cases hcallee : t.callee? with
  | none => rfl
  | some callee => exact ho.typeOf callee (h.child (Tree.mem_of_callee? hcallee))

theorem usableSignature_follows (hfits : t.span.Fits k) :
    Follows k (Arguments.usableSignature o (t.redraw keep (.moved k)))
      (Arguments.usableSignature o t) := by
  unfold Arguments.usableSignature
  rw [ho.typeOf_callee_redraw h, ho.resolvedSignature t h, Tree.info_redraw]
  split
  · exact .ok _
  · split
    · exact .ok _
    · exact .ok _
    · exact .error (Failure.multipleSignatures_moved hfits _)

end Oracle.Steady

structure Redraws (keep : Tree.Info → Bool) (k : Nat) (o : Oracle) (t : Tree) : Prop where
  part : ∀ pos, Follows k (lowerAt o pos (t.redraw keep (.moved k))) (lowerAt o pos t)
  statement : Follows k (lowerStatement o (t.redraw keep (.moved k))) (lowerStatement o t)

/-! ## What a node reads of its children -/

section Children

variable {t : Tree} (h : Redrawable keep k t)

include h

theorem requiredField_follows {α : Type} (name : String) {f g : Tree → Lowering α}
    (hfg : ∀ c ∈ t.children, Follows k (f (c.redraw keep (.moved k))) (g c)) :
    Follows k (requiredField (t.redraw keep (.moved k)) name >>= f)
      (requiredField t name >>= g) := by
  unfold requiredField
  rw [Tree.childByField?_redraw h.loses]
  cases hc : t.childByField? name with
  | none =>
    refine .error ?_
    rw [Tree.info_redraw]
    exact Failure.unsupported_moved h.fits
  | some c => exact hfg c (Tree.mem_of_childByField? hc)

theorem isOptionalChain_redraw :
    isOptionalChain (t.redraw keep (.moved k)) = isOptionalChain t := by
  have hkind : Tree.Overlooks fun c => c.kind == .optionalChain :=
    Tree.overlooks_kind (by decide)
  rw [isOptionalChain, isOptionalChain, Tree.childByField?_redraw h.loses,
    Tree.hasToken_redraw h.loses, Tree.any_children_redraw h.loses hkind, Option.isSome_map]

theorem unsupportedAs_redraw (kind : String) :
    Failure.unsupportedAs (t.redraw keep (.moved k)).info kind =
      (Failure.unsupportedAs t.info kind).moved k := by
  rw [Tree.info_redraw]
  exact Failure.unsupportedAs_moved h.fits kind

theorem rejectOptionalChain_follows :
    Follows k (rejectOptionalChain (t.redraw keep (.moved k))) (rejectOptionalChain t) := by
  rw [rejectOptionalChain, rejectOptionalChain, isOptionalChain_redraw h]
  split
  · exact .error (unsupportedAs_redraw h _)
  · exact .ok _

theorem rejectTaggedTemplate_follows :
    Follows k (rejectTaggedTemplate (t.redraw keep (.moved k))) (rejectTaggedTemplate t) := by
  have htagged := unsupportedAs_redraw h "tagged template"
  rw [rejectTaggedTemplate, rejectTaggedTemplate, Tree.childByField?_redraw h.loses]
  cases t.childByField? "arguments" with
  | none => exact .error htagged
  | some list =>
    simp only [Option.map_some, Tree.kind_redraw]
    split
    · exact .ok _
    · exact .error htagged

theorem loopVariable_redraw (name : String) :
    loopVariable (t.redraw keep (.moved k)) name = loopVariable t name := by
  simp only [loopVariable, Tree.hasToken_redraw h.loses]

theorem plainPropertyName_follows :
    Follows k (plainPropertyName (t.info.placed (.moved k))) (plainPropertyName t.info) := by
  unfold plainPropertyName
  dsimp only [Tree.Info.kind_placed, Tree.Info.text_placed]
  split
  case h_4 => exact .error (Failure.unsupported_moved h.fits)
  all_goals exact .ok _

end Children

theorem catchVariable_follows {t : Tree} (h : t.Everywhere (Redrawable keep k)) :
    Follows k (catchVariable (t.redraw keep (.moved k))) (catchVariable t) := by
  unfold catchVariable
  rw [Tree.childByField?_redraw h.here.loses]
  cases hc : t.childByField? "parameter" with
  | none => exact .ok _
  | some parameter =>
    have hparameter := (h.child (Tree.mem_of_childByField? hc)).here
    simp only [Option.map_some, Tree.kind_redraw, Tree.text_redraw]
    split
    · exact .ok _
    · exact .error (unsupportedAs_redraw hparameter _)

theorem overlooks_isDeclarator : Tree.Overlooks isDeclarator where
  redraw _ _ t := by
    rw [isDeclarator, Tree.overlooks_isOperand.redraw, Tree.kind_redraw, isDeclarator]
  comment c hc := by rw [isDeclarator, Tree.overlooks_isOperand.comment c hc, Bool.false_and]

/-! ## Parameters -/

theorem patternName_follows {t : Tree} (h : Redrawable keep k t) :
    Follows k (Function.patternName (t.redraw keep (.moved k))) (Function.patternName t) := by
  have hrefused := unsupportedAs_redraw h
  unfold Function.patternName
  rw [Tree.kind_redraw, Tree.firstNamedChild?_redraw h.loses, Tree.text_redraw]
  split
  case h_1 => exact .ok _
  case h_2 =>
    cases t.firstNamedChild? with
    | none => exact .error (hrefused _)
    | some name =>
      simp only [Option.map_some, Tree.kind_redraw, Tree.text_redraw]
      split
      · exact .ok _
      · exact .error (hrefused _)
  case h_3 | h_4 => exact .error (hrefused _)
  case h_5 =>
    refine .error ?_
    rw [Tree.info_redraw]
    exact Failure.unsupported_moved h.fits

theorem parameterName_follows {t : Tree} (h : t.Everywhere (Redrawable keep k)) :
    Follows k (Function.parameterName (t.redraw keep (.moved k))) (Function.parameterName t) := by
  have hpattern : Follows k
      (required (t.redraw keep (.moved k)).info
        (((t.redraw keep (.moved k)).childByField? "pattern").map Function.patternName))
      (required t.info ((t.childByField? "pattern").map Function.patternName)) := by
    rw [Tree.childByField?_redraw h.here.loses, Tree.info_redraw]
    cases hc : t.childByField? "pattern" with
    | none => exact .error (Failure.unsupported_moved h.here.fits)
    | some pattern =>
      exact patternName_follows (h.child (Tree.mem_of_childByField? hc)).here
  unfold Function.parameterName
  rw [Tree.kind_redraw]
  split
  · exact hpattern
  · exact hpattern
  · exact patternName_follows h.here

theorem gather_map_follows {α : Type} {f g : Tree → Lowering α} {ts : List Tree}
    (hfg : ∀ c ∈ ts, Follows k (f (c.redraw keep (.moved k))) (g c)) :
    Follows k (gather ((ts.map (Tree.redraw keep (.moved k))).map f)) (gather (ts.map g)) := by
  have hmap : (ts.map (Tree.redraw keep (.moved k))).map f =
      (ts.map g).map (Except.mapError (Failure.moved k)) := by
    rw [List.map_map, List.map_map]
    exact List.map_congr_left hfg
  rw [hmap]
  exact .gather _

theorem parameterNames_follows {t : Tree} (h : t.Everywhere (Redrawable keep k)) :
    Follows k (Function.parameterNames (t.redraw keep (.moved k))) (Function.parameterNames t) := by
  unfold Function.parameterNames
  rw [Tree.childByField?_redraw h.here.loses, Tree.childByField?_redraw h.here.loses]
  cases t.childByField? "parameter" with
  | some parameter =>
    simp only [Option.map_some, Tree.text_redraw]
    exact .ok _
  | none =>
    cases hlist : t.childByField? "parameters" with
    | none => exact .ok _
    | some list =>
      have hlist := h.child (Tree.mem_of_childByField? hlist)
      simp only [Option.map_none, Option.map_some, Tree.namedChildren_redraw hlist.here.loses]
      exact gather_map_follows fun c hc =>
        parameterName_follows (hlist.child (Tree.mem_of_mem_namedChildren hc))

theorem assemble_function_follows {t : Tree} (h : t.Everywhere (Redrawable keep k))
    (flavor : FunctionFlavor) (drop : Nat) (body? : Option (Lowering Node)) :
    Follows k
      (Function.assemble flavor drop (t.redraw keep (.moved k))
        (body?.map (Except.mapError (Failure.moved k))))
      (Function.assemble flavor drop t body?) := by
  have hrefused := unsupportedAs_redraw h.here
  have hbodyless : Failure.declarationOnly (t.redraw keep (.moved k)).info =
      (Failure.declarationOnly t.info).moved k := by
    rw [Tree.info_redraw]
    exact Failure.declarationOnly_moved h.here.fits
  unfold Function.assemble
  rw [Tree.kind_redraw, Tree.hasToken_redraw h.here.loses]
  split
  case h_4 | h_5 => exact .error (hrefused _)
  case h_6 => exact .error hbodyless
  all_goals
    cases body? with
    | none => exact .error hbodyless
    | some body =>
      have hbody : Follows k (body.mapError (Failure.moved k)) body := rfl
      dsimp only [Option.map_some]
      split
      · exact .error (hrefused _)
      · exact (parameterNames_follows h).bind fun _ => hbody.map

/-! ## Arguments -/

theorem assemble_arguments_follows {t : Tree} (ho : o.Steady keep k)
    (h : t.Everywhere (Redrawable keep k))
    (supplied : List (Lowering Node)) :
    Follows k
      (Arguments.assemble o (t.redraw keep (.moved k))
        (supplied.map (Except.mapError (Failure.moved k))))
      (Arguments.assemble o t supplied) := by
  have hvalue (index : Nat) (p : Parameter) :
      Follows k
        (Arguments.valueFor (supplied.map (Except.mapError (Failure.moved k))) index p)
        (Arguments.valueFor supplied index p) := by
    unfold Arguments.valueFor
    split
    · rw [← List.map_drop]
      exact (Follows.gather _).map
    · rw [List.getElem?_map]
      exact .optional _
  have hbound (ps : List Parameter) (index : Nat) :
      Follows k
        (Arguments.bindFrom (supplied.map (Except.mapError (Failure.moved k))) index ps)
        (Arguments.bindFrom supplied index ps) := by
    induction ps generalizing index with
    | nil => exact .ok _
    | cons p ps ih => exact (hvalue index p).bind fun _ => (ih (index + 1)).map
  refine (ho.usableSignature_follows (Redrawable.everywhere_loses h) h.here.fits).bind fun s? => ?_
  split
  · exact hbound _ 0
  · exact (Follows.gather _).map

/-! ## Trees -/

section Trees

variable {info : Tree.Info} {children : List Tree}
  (h : (Tree.node info children).Everywhere (Redrawable keep k))
  (hbelow : ∀ c ∈ children, Redraws keep k o c)

include h hbelow

theorem lowerChildren_redraw (pos : Position) {p : Tree → Bool} (hp : Tree.Overlooks p) :
    lowerChildren o pos p (Tree.redrawAll keep (.moved k) children) =
      (lowerChildren o pos p children).map (Except.mapError (Failure.moved k)) := by
  rw [lowerChildren_eq, lowerChildren_eq, List.map_map]
  exact Tree.map_filter_children_redraw (t := .node info children) h.here.loses hp
    fun c hc => (hbelow c hc).part pos

theorem required_follows (pos : Position) {p : Tree → Bool} (hp : Tree.Overlooks p) :
    Follows k
      (Lowering.required (info.placed (.moved k))
        (lowerChildren o pos p (Tree.redrawAll keep (.moved k) children)).head?)
      (Lowering.required info (lowerChildren o pos p children).head?) := by
  rw [lowerChildren_redraw h hbelow pos hp, List.head?_map]
  exact .required h.here.fits _

theorem optional_follows (pos : Position) {p : Tree → Bool} (hp : Tree.Overlooks p) :
    Follows k
      (Lowering.optional (lowerChildren o pos p (Tree.redrawAll keep (.moved k) children)).head?)
      (Lowering.optional (lowerChildren o pos p children).head?) := by
  rw [lowerChildren_redraw h hbelow pos hp, List.head?_map]
  exact .optional _

theorem gather_follows (pos : Position) {p : Tree → Bool} (hp : Tree.Overlooks p) :
    Follows k (gather (lowerChildren o pos p (Tree.redrawAll keep (.moved k) children)))
      (gather (lowerChildren o pos p children)) := by
  rw [lowerChildren_redraw h hbelow pos hp]
  exact .gather _

theorem lowerStatements_follows :
    Follows k (lowerStatements o (Tree.redrawAll keep (.moved k) children))
      (lowerStatements o children) := by
  have hchildren : (Tree.redrawAll keep (.moved k) children).filter Tree.isOperand =
      (children.filter Tree.isOperand).map (Tree.redraw keep (.moved k)) :=
    Tree.filter_children_redraw (t := .node info children) h.here.loses
      Tree.overlooks_isOperand
  have hgather := gather_map_follows fun c (hc : c ∈ children.filter Tree.isOperand) =>
    (hbelow c (List.mem_of_mem_filter hc)).statement
  rw [lowerStatements_eq, lowerStatements_eq, hchildren]
  exact hgather.map

theorem function_follows (flavor : FunctionFlavor) (drop : Nat) :
    Follows k
      (Function.assemble flavor drop ((Tree.node info children).redraw keep (.moved k))
        (lowerChildren o .functionBody (Tree.inField "body")
          (Tree.redrawAll keep (.moved k) children)).head?)
      (Function.assemble flavor drop (.node info children)
        (lowerChildren o .functionBody (Tree.inField "body") children).head?) := by
  rw [lowerChildren_redraw h hbelow .functionBody (Tree.overlooks_inField "body"),
    List.head?_map]
  exact assemble_function_follows h flavor drop _

theorem assemble_template_follows :
    Follows k
      (Template.assemble (info.placed (.moved k))
        ((((Tree.redrawAll keep (.moved k) children).filter isSubstitution).map Tree.span).zip
          (lowerChildren o .substitution isSubstitution (Tree.redrawAll keep (.moved k) children))))
      (Template.assemble info (((children.filter isSubstitution).map Tree.span).zip
        (lowerChildren o .substitution isSubstitution children))) := by
  have hkind : Tree.Overlooks isSubstitution := Tree.overlooks_kind (by decide)
  have hspans : ((Tree.redrawAll keep (.moved k) children).filter isSubstitution).map Tree.span =
      ((children.filter isSubstitution).map Tree.span).map (Span.moved k) := by
    rw [List.map_map]
    exact Tree.map_filter_children_redraw (t := .node info children) h.here.loses hkind
      fun c _ => Tree.span_redraw c
  obtain ⟨hstart, hstop⟩ := Span.toNat_moved h.here.fits
  have hfits : ∀ x ∈ ((children.filter isSubstitution).map Tree.span).zip
      (lowerChildren o .substitution isSubstitution children), x.1.Fits k := by
    intro x hx
    obtain ⟨c, hc, hspan⟩ := List.mem_map.mp (List.of_mem_zip hx).1
    rw [← hspan]
    exact (h.child (List.mem_of_mem_filter hc)).here.1
  have hparts := parts_follows info.text.toList info.span.start.toNat info.span.stop.toNat
    (info.span.start.toNat + 1) hfits
  rw [Nat.add_right_comm] at hparts
  rw [hspans, lowerChildren_redraw h hbelow .substitution hkind, List.zip_map]
  unfold Template.assemble
  rw [show (info.placed (.moved k)).span.start.toNat = info.span.start.toNat + k from hstart,
    show (info.placed (.moved k)).span.stop.toNat = info.span.stop.toNat + k from hstop]
  exact hparts.map

omit hbelow in
theorem lowerArguments_follows (ho : o.Steady keep k)
    (hargs : ∀ c ∈ (Tree.node info children).callArguments, Redraws keep k o c)
    (hinvocation : (Tree.node info children).isInvocation = true) :
    Follows k
      (Arguments.assemble o ((Tree.node info children).redraw keep (.moved k))
        (lowerArguments o (Tree.redrawAll keep (.moved k) children)))
      (Arguments.assemble o (.node info children) (lowerArguments o children)) := by
  have hlist : lowerArguments o (Tree.redrawAll keep (.moved k) children) =
      (lowerArguments o children).map (Except.mapError (Failure.moved k)) := by
    have hbefore : lowerArguments o children =
        (Tree.node info children).callArguments.map (lowerElement o) :=
      lowerArguments_eq o hinvocation
    have hafter : lowerArguments o (Tree.redrawAll keep (.moved k) children) =
        ((Tree.node info children).redraw keep (.moved k)).callArguments.map (lowerElement o) :=
      lowerArguments_eq o (t := (Tree.node info children).redraw keep (.moved k))
        (by rw [Tree.isInvocation_redraw, hinvocation])
    rw [hafter, hbefore, Tree.callArguments_redraw (Redrawable.everywhere_loses h),
      List.map_map, List.map_map]
    exact List.map_congr_left fun c hc => (hargs c hc).part .element
  rw [hlist]
  exact assemble_arguments_follows ho h _

theorem lowerExpr_follows (ho : o.Steady keep k)
    (hargs : ∀ c ∈ (Tree.node info children).callArguments, Redraws keep k o c) :
    Follows k (lowerExpr o ((Tree.node info children).redraw keep (.moved k)))
      (lowerExpr o (.node info children)) := by
  have hvalue (name : String) := required_follows h hbelow .value (Tree.overlooks_inField name)
  have hfield (name : String) {f g : Tree → Lowering Node}
      (hfg : ∀ c ∈ children, Follows k (f (c.redraw keep (.moved k))) (g c)) :=
    requiredField_follows h.here name hfg
  have hreference := ho.resolveReference?_redraw (Redrawable.everywhere_loses h)
  have hsnapshot := ho.typeSnapshot?_redraw (Redrawable.everywhere_loses h)
  have hlist : ((Tree.node info children).redraw keep (.moved k)).childByField? "arguments" = _ :=
    Tree.childByField?_redraw h.here.loses "arguments"
  have hplain := rejectOptionalChain_follows h.here
  have huntagged := rejectTaggedTemplate_follows h.here
  have hoperator (token : String) := Failure.operator_moved h.here.fits token
  -- Both trees have one kind, so one case split serves both runs.
  rw [Tree.redraw] at hfield hreference hsnapshot hlist hplain huntagged ⊢
  unfold lowerExpr
  simp only [Tree.Info.kind_placed, Tree.Info.text_placed, hreference, hsnapshot, hlist,
    Option.isSome_map]
  split
  case h_1 | h_2 => split <;> exact .ok _
  case h_3 | h_4 | h_5 | h_6 | h_7 | h_8 => exact .ok _
  case h_9 => exact assemble_template_follows h hbelow
  case h_10 | h_11 | h_12 | h_13 => exact required_follows h hbelow .value Tree.overlooks_isOperand
  case h_14 =>
    rw [lowerChildren_redraw h hbelow .value Tree.overlooks_isOperand, List.getLast?_map]
    exact .required h.here.fits _
  case h_15 =>
    refine hplain.bind fun _ => ?_
    split
    · exact .ok _
    · exact (hvalue "object").bind fun _ => hfield _ fun c _ => by
        rw [Tree.text_redraw]
        exact .ok _
  case h_16 =>
    refine hplain.bind fun _ => ?_
    split
    · exact .ok _
    · exact (hvalue "object").bind fun _ => (hvalue "index").map
  case h_17 hk =>
    exact hplain.bind fun _ => huntagged.bind fun _ => (hvalue "function").bind fun _ =>
      (lowerArguments_follows h ho hargs (by rw [Tree.isInvocation, Tree.kind, Tree.info, hk])).map
  case h_18 hk =>
    split
    · exact (lowerArguments_follows h ho hargs
        (by rw [Tree.isInvocation, Tree.kind, Tree.info, hk])).bind fun _ =>
          (hvalue "constructor").map
    · exact (Follows.ok []).bind fun _ => (hvalue "constructor").map
  case h_19 =>
    refine hfield _ fun token _ => ?_
    rw [Tree.text_redraw]
    split
    · exact .error (hoperator token.text)
    · exact (hvalue "left").bind fun _ => (hvalue "right").map
  case h_20 => exact (hvalue "left").bind fun _ => (hvalue "right").map
  case h_21 | h_22 =>
    refine hfield _ fun token _ => ?_
    rw [Tree.text_redraw]
    exact .error (hoperator token.text)
  case h_23 =>
    refine hfield _ fun token _ => hfield _ fun _ _ => ?_
    rw [Tree.text_redraw]
    split
    · exact (hvalue "argument").map
    · split
      · exact .error (hoperator token.text)
      · exact (hvalue "argument").map
  case h_24 =>
    exact (hvalue "condition").bind fun _ => (hvalue "consequence").bind fun _ =>
      (hvalue "alternative").map
  case h_25 => exact (gather_follows h hbelow .element Tree.overlooks_isOperand).map
  case h_26 => exact (gather_follows h hbelow .property Tree.overlooks_isOperand).map
  case h_27 | h_28 | h_29 => exact function_follows h hbelow .expression 0
  case h_30 => exact .error (Failure.unsupported_moved h.here.fits)

theorem lowerStatement_follows :
    Follows k (lowerStatement o ((Tree.node info children).redraw keep (.moved k)))
      (lowerStatement o (.node info children)) := by
  have hpart (pos : Position) (name : String) :=
    required_follows h hbelow pos (Tree.overlooks_inField name)
  have hoption (pos : Position) (name : String) :=
    optional_follows h hbelow pos (Tree.overlooks_inField name)
  have hoperand := required_follows h hbelow .value Tree.overlooks_isOperand
  have hfield {α : Type} (name : String) {f g : Tree → Lowering α}
      (hfg : ∀ c ∈ children, Follows k (f (c.redraw keep (.moved k))) (g c)) :=
    requiredField_follows h.here name hfg
  have htoken (token : String) :
      ((Tree.node info children).redraw keep (.moved k)).hasToken token = _ :=
    Tree.hasToken_redraw h.here.loses token
  have hvariable (name : String) := loopVariable_redraw h.here name
  have hnamed : ((Tree.node info children).redraw keep (.moved k)).firstNamedChild? = _ :=
    Tree.firstNamedChild?_redraw h.here.loses
  have hrefused (kind : String) := Failure.unsupportedAs_moved h.here.fits kind
  rw [Tree.redraw] at hfield htoken hvariable hnamed ⊢
  unfold lowerStatement
  simp only [Tree.Info.kind_placed, htoken, hvariable, hnamed, Option.isSome_map]
  split
  case h_1 => exact hoperand.map
  case h_2 => exact (lowerStatements_follows h hbelow).map
  case h_3 | h_4 =>
    exact gather_follows h hbelow .declarator overlooks_isDeclarator
  case h_5 => exact .ok _
  case h_6 => exact (optional_follows h hbelow .value Tree.overlooks_isOperand).map
  case h_7 =>
    exact (hpart .value "condition").bind fun _ => (hpart .branch "consequence").bind fun _ =>
      (hoption .elseClause "alternative").map
  case h_8 => exact (hpart .value "condition").bind fun _ => (hpart .loopBody "body").map
  case h_9 => exact (hpart .loopBody "body").bind fun _ => (hpart .value "condition").map
  case h_10 =>
    split
    · exact .error (hrefused _)
    · refine hfield _ fun left hleft => ?_
      rw [Tree.kind_redraw, Tree.text_redraw]
      split
      · refine (hpart .value "right").bind fun _ => (hpart .loopBody "body").bind fun _ => ?_
        split <;> exact .ok _
      · exact .error (unsupportedAs_redraw (h.child hleft).here _)
  case h_11 | h_12 =>
    split
    · exact .error (hrefused _)
    · exact .ok _
  case h_13 =>
    exact (hpart .block "body").bind fun _ => (hoption .catchClause "handler").bind fun _ =>
      (hoption .finallyClause "finalizer").map
  case h_14 => exact hoperand.map
  case h_15 =>
    refine hfield _ fun name _ => ?_
    rw [Tree.text_redraw]
    exact (function_follows h hbelow .expression 0).map
  case h_16 => exact .error (Failure.declarationOnly_moved h.here.fits)
  case h_17 => exact .error (Failure.unsupported_moved h.here.fits)

theorem lowerAt_follows {pos : Position}
    (hexpr : Follows k (lowerExpr o ((Tree.node info children).redraw keep (.moved k)))
      (lowerExpr o (.node info children)))
    (hstatement : Follows k (lowerStatement o ((Tree.node info children).redraw keep (.moved k)))
      (lowerStatement o (.node info children))) :
    Follows k (lowerAt o pos ((Tree.node info children).redraw keep (.moved k)))
      (lowerAt o pos (.node info children)) := by
  have hpart (pos : Position) (name : String) :=
    required_follows h hbelow pos (Tree.overlooks_inField name)
  have hoperand (pos : Position) := required_follows h hbelow pos Tree.overlooks_isOperand
  have hblock := lowerStatements_follows h hbelow
  have hrefused (kind : String) := Failure.unsupportedAs_moved h.here.fits kind
  have hcatch := catchVariable_follows h
  have hplain := plainPropertyName_follows (t := .node info children) h.here
  rw [Tree.redraw] at hexpr hstatement hcatch ⊢
  cases pos <;>
    simp only [lowerAt, lowerChildren, if_pos, List.head?_cons, required_some]
  case value => exact hexpr
  case element => exact .ite (hoperand .value).map hexpr
  case property =>
    simp only [Tree.Info.kind_placed, Tree.Info.text_placed]
    split
    case h_1 => exact (hpart .propertyName "key").bind fun _ => (hpart .value "value").map
    case h_2 => exact hexpr.map
    case h_3 => exact (hoperand .value).map
    case h_4 => exact .error (hrefused _)
    case h_5 => exact .error (Failure.unsupported_moved h.here.fits)
  case propertyName => exact .ite (hoperand .value).map hplain
  case substitution => exact hoperand .value
  case functionBody => exact .ite hblock.map hexpr.map
  case block => exact hblock.map
  case loopBody => exact .ite hblock.map hstatement.map
  case branch => exact hstatement.map
  case elseClause => exact hoperand .branch
  case declarator =>
    refine requiredField_follows (t := .node info children) h.here _ fun name hname => ?_
    rw [Tree.kind_redraw, Tree.text_redraw]
    split
    · exact (optional_follows h hbelow .value (Tree.overlooks_inField "value")).map
    · exact .error (unsupportedAs_redraw (h.child hname).here _)
  case catchClause => exact hcatch.bind fun _ => (hpart .block "body").map
  case finallyClause => exact hpart .block "body"

end Trees

theorem redraws (ho : o.Steady keep k) {t : Tree} (h : t.Everywhere (Redrawable keep k)) :
    Redraws keep k o t := by
  induction t using Tree.induct_below with
  | node t ih =>
    have hbelow : ∀ c ∈ t.children, Redraws keep k o c := fun c hc => (ih c hc).1 (h.child hc)
    have hargs : ∀ c ∈ t.callArguments, Redraws keep k o c := fun c hc =>
      Tree.forall_mem_callArguments ih c hc (h.argument hc)
    obtain ⟨info, children⟩ := t
    have hexpr := lowerExpr_follows h hbelow ho hargs
    have hstatement := lowerStatement_follows h hbelow
    exact ⟨fun _ => lowerAt_follows h hbelow hexpr hstatement, hstatement⟩

/-! ## Functions and invocations -/

namespace Oracle.Steady

variable (ho : o.Steady keep k) {t : Tree} (h : t.Everywhere (Redrawable keep k))

include ho h

theorem lowerExpr_redraw : Follows k (lowerExpr o (t.redraw keep (.moved k))) (lowerExpr o t) := by
  obtain ⟨info, children⟩ := t
  exact (redraws ho h).part .value

theorem lowerStatement_redraw :
    Follows k (lowerStatement o (t.redraw keep (.moved k))) (lowerStatement o t) :=
  (redraws ho h).statement

theorem lowerFunction_redraw (flavor : FunctionFlavor) (drop : Nat) :
    Follows k (lowerFunction o flavor drop (t.redraw keep (.moved k)))
      (lowerFunction o flavor drop t) := by
  obtain ⟨info, children⟩ := t
  exact function_follows h (fun c hc => redraws ho (h.child hc)) flavor drop

theorem bindArguments_redraw :
    Follows k (bindArguments o (t.redraw keep (.moved k))) (bindArguments o t) := by
  have hargs : (t.redraw keep (.moved k)).callArguments.map (lowerElement o) =
      (t.callArguments.map (lowerElement o)).map (Except.mapError (Failure.moved k)) := by
    rw [Tree.callArguments_redraw (Redrawable.everywhere_loses h), List.map_map, List.map_map]
    exact List.map_congr_left fun c hc => (redraws ho (h.argument hc)).part .element
  rw [bindArguments, bindArguments, hargs]
  exact assemble_arguments_follows ho h _

/-- What takes the place of a function does not show where the function stood. -/
theorem lowerReflected_redraw (drop : Nat) :
    lowerReflected o drop (t.redraw keep (.moved k)) = lowerReflected o drop t := by
  have hfollows : lowerFunction o .declaration drop (t.redraw keep (.moved k)) =
      (lowerFunction o .declaration drop t).mapError (Failure.moved k) :=
    ho.lowerFunction_redraw h .declaration drop
  rw [lowerReflected, lowerReflected, hfollows]
  cases lowerFunction o .declaration drop t with
  | ok n => rfl
  | error f => exact f.toNode_moved k

end Oracle.Steady
end Reify
