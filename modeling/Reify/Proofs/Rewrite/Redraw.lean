/-
The walk over a tree that was drawn again.

What an invocation selects does not show that the tree was redrawn (`select?_redraw`), and the
walk finds the same rewrites, their slots as far moved as the tree (`collect_redraw`).  Hence
comments never matter, and it does not matter where a function stands.
-/
import Reify.Proofs.Lowering.Redraw
import Reify.Rewrite.Walk

namespace Reify

open Reify.Tree

variable {keep : Tree.Info → Bool} {k : Nat} {o : Oracle} {t : Tree}

/-! ## Selections -/

namespace Selector

theorem selectReflect?_redraw (h : t.Everywhere (LosesComments keep)) :
    selectReflect? (t.redraw keep (.moved k)) = selectReflect? t := by
  simp only [selectReflect?, callee?_redraw h.here, callArguments_redraw h, List.length_map,
    Option.bind_eq_bind, Option.bind_map, Function.comp_def, kind_redraw, text_redraw]

variable (ho : o.Steady keep k) (h : t.Everywhere (LosesComments keep))

include ho h

theorem isFunctionTyped_redraw :
    isFunctionTyped o (t.redraw keep (.moved k)) = isFunctionTyped o t := by
  rw [isFunctionTyped, kind_redraw, ho.typeOf t h, isFunctionTyped]

theorem selectEventMethod?_redraw :
    selectEventMethod? o (t.redraw keep (.moved k)) = selectEventMethod? o t := by
  unfold selectEventMethod?
  rw [callee?_redraw h.here, callArguments_redraw h, List.length_map, List.getLast?_map]
  cases hcallee : t.callee? with
  | none => rfl
  | some callee =>
    have hcallee := h.child (mem_of_callee? hcallee)
    have hreceiver (object : Tree) (hobject : callee.childByField? "object" = some object) :
        o.typeOf (object.redraw keep (.moved k)) = o.typeOf object :=
      ho.typeOf object (hcallee.child (mem_of_childByField? hobject))
    have htrailing (trailing : Tree) (hlast : t.callArguments.getLast? = some trailing) :
        isFunctionTyped o (trailing.redraw keep (.moved k)) = isFunctionTyped o trailing :=
      isFunctionTyped_redraw ho (h.argument (List.mem_of_getLast? hlast))
    simp only [Option.map_some, Option.bind_eq_bind, Option.bind_some, Option.bind_map,
      Function.comp_def, kind_redraw, text_redraw, childByField?_redraw hcallee.here]
    split
    · refine Option.bind_congr fun property _ => Option.bind_congr fun kind _ =>
        Option.bind_congr fun object hobject => ?_
      rw [hreceiver object hobject]
      refine Option.bind_congr fun receiver _ => ?_
      split
      · exact Option.bind_congr fun trailing hlast => by rw [htrailing trailing hlast]
      · rfl
    · rfl

theorem component?_redraw : component? o (t.redraw keep (.moved k)) = component? o t := by
  unfold component?
  rw [callee?_redraw h.here, ho.typeOf t h]
  cases hcallee : t.callee? with
  | none => rfl
  | some callee =>
    have hcallee := h.child (mem_of_callee? hcallee)
    simp only [Option.map_some, Option.bind_eq_bind, Option.bind_some, ho.typeOf callee hcallee]

theorem selectComponent?_redraw :
    selectComponent? o (t.redraw keep (.moved k)) = selectComponent? o t := by
  rw [selectComponent?, component?_redraw ho h, callArguments_redraw h, List.length_map,
    selectComponent?]

end Selector

theorem select?_redraw (ho : o.Steady keep k) (h : t.Everywhere (LosesComments keep)) :
    select? o (t.redraw keep (.moved k)) = select? o t := by
  rw [select?, kind_redraw, Selector.selectReflect?_redraw h,
    Selector.selectEventMethod?_redraw ho h, Selector.selectComponent?_redraw ho h, select?]

/-! ## The walk -/

def Rewrite.moved (k : Nat) (r : Rewrite) : Rewrite := { r with span := r.span.moved k }

namespace Rewrite

theorem moved_zero : Rewrite.moved 0 = id := by
  funext r
  rw [moved, Span.moved_zero]
  rfl

theorem collect_bareComment {c : Tree} (hc : c.BareComment) : collect o c = [] := by
  obtain ⟨info, children⟩ := c
  have hkind : info.kind = .comment := hc.kind
  have hchildren : children = [] := hc.children
  rw [collect, select?, Tree.kind, Tree.info, hkind, hchildren]
  rfl

theorem ofSelection_redraw (ho : o.Steady keep k) (h : t.Everywhere (Redrawable keep k))
    (s : Selection) :
    ofSelection o (t.redraw keep (.moved k)) s = (ofSelection o t s).map (Rewrite.moved k) := by
  unfold ofSelection
  rw [List.map_filterMap, callArguments_redraw (Redrawable.everywhere_loses h)]
  refine List.filterMap_congr fun i _ => ?_
  rw [List.getElem?_map]
  cases hslot : t.callArguments[i]? with
  | none => rfl
  | some slot =>
    have hslot := ho.lowerReflected_redraw (h.argument (List.mem_of_getElem? hslot)) s.drop
    simp only [Option.map_some, Rewrite.moved, span_redraw, hslot]

/-- The walk of the redrawn node finds what the walk of the node found, or the node is left
out and the walk found nothing in it. -/
structure Carries (keep : Tree.Info → Bool) (k : Nat) (o : Oracle) (c : Tree) : Prop where
  dropped : keep c.info = false → c.BareComment
  collect : collect o (c.redraw keep (.moved k)) = (collect o c).map (Rewrite.moved k)

/-! A child that is left out contributes nothing to any walk over the children, fills no field
and is no argument, so it shifts no index. -/

theorem collectAll_redraw {ts : List Tree} (h : ∀ c ∈ ts, Carries keep k o c) :
    collectAll o (redrawAll keep (.moved k) ts) = (collectAll o ts).map (Rewrite.moved k) := by
  induction ts with
  | nil => rfl
  | cons c ts ih =>
    obtain ⟨hc, hts⟩ := List.forall_mem_cons.mp h
    rw [redrawAll, collectAll, List.map_append, ← ih hts, ← hc.collect]
    cases hkeep : keep c.info with
    | true => rfl
    | false =>
      rw [hc.collect, collect_bareComment (hc.dropped hkeep)]
      rfl

theorem collectOutside_redraw {ts : List Tree} (h : ∀ c ∈ ts, Carries keep k o c)
    (slots : List Nat) (index : Nat) :
    collectOutside o slots index (redrawAll keep (.moved k) ts) =
      (collectOutside o slots index ts).map (Rewrite.moved k) := by
  induction ts generalizing index with
  | nil => rfl
  | cons c ts ih =>
    obtain ⟨hc, hts⟩ := List.forall_mem_cons.mp h
    rw [redrawAll]
    cases hkeep : keep c.info with
    | true =>
      rw [if_pos rfl, collectOutside, collectOutside, overlooks_isOperand.redraw, hc.collect,
        ih hts, ih hts]
      split
      · rw [List.map_append]
        split <;> rfl
      · rw [List.map_append]
    | false =>
      have hcomment := hc.dropped hkeep
      rw [if_neg Bool.false_ne_true, collectOutside, overlooks_isOperand.comment c hcomment,
        collect_bareComment hcomment, ih hts]
      rfl

theorem collectBeside_redraw {ts : List Tree} (h : ∀ c ∈ ts, Carries keep k o c)
    (hbelow : ∀ c ∈ ts, ∀ d ∈ c.children, Carries keep k o d) (slots : List Nat) :
    collectBeside o slots (redrawAll keep (.moved k) ts) =
      (collectBeside o slots ts).map (Rewrite.moved k) := by
  induction ts with
  | nil => rfl
  | cons c ts ih =>
    obtain ⟨hc, hts⟩ := List.forall_mem_cons.mp h
    obtain ⟨hparts, hrest⟩ := List.forall_mem_cons.mp hbelow
    have houtside := collectOutside_redraw hparts slots 0
    have hfield := (overlooks_inField "arguments").redraw keep (.moved k) c
    have hcollect := hc.collect
    rw [redrawAll]
    cases hkeep : keep c.info with
    | true =>
      obtain ⟨info, children⟩ := c
      rw [redraw] at hfield hcollect
      rw [if_pos rfl, redraw, collectBeside, collectBeside, hfield, hcollect, ih hts hrest,
        collectAll_redraw hts, Info.kind_placed]
      split
      · rw [List.map_append]
        split
        · exact congrArg (· ++ _) houtside
        · rfl
      · rw [List.map_append]
    | false =>
      have hcomment := hc.dropped hkeep
      have hnone : collect o c = [] := collect_bareComment hcomment
      have hunfilled := (overlooks_inField "arguments").comment c hcomment
      obtain ⟨info, children⟩ := c
      rw [if_neg Bool.false_ne_true, collectBeside, hunfilled, hnone, ih hts hrest]
      rfl

/-- The walk of a redrawn tree finds the rewrites that it found, each as far moved as the
tree. -/
theorem collect_redraw (ho : o.Steady keep k) (h : t.Everywhere (Redrawable keep k)) :
    collect o (t.redraw keep (.moved k)) = (collect o t).map (Rewrite.moved k) := by
  induction t using Tree.induct_below with
  | node t ih =>
    have hchildren : ∀ c ∈ t.children, Carries keep k o c := fun c hc =>
      ⟨h.here.loses c hc, (ih c hc).1 (h.child hc)⟩
    -- In an argument list the walk leaves arguments out, so it is followed a level further down.
    have hbelow : ∀ c ∈ t.children, ∀ d ∈ c.children, Carries keep k o d := fun c hc d hd =>
      ⟨(h.child hc).here.loses d hd, (ih c hc).2 d hd ((h.child hc).child hd)⟩
    have hselect := select?_redraw ho (Redrawable.everywhere_loses h)
    have hslots := ofSelection_redraw ho h
    obtain ⟨info, children⟩ := t
    rw [redraw] at hselect hslots ⊢
    rw [collect, collect, hselect]
    split
    · exact collectAll_redraw hchildren
    · rw [List.map_append, hslots]
      exact congrArg _ (collectBeside_redraw hchildren hbelow _)

end Rewrite

/-! ## Comments -/

/-- Where every comment is a named node without field and parts, leaving out all comments
changes neither what a tree lowers to, or how it fails, in any of the ways it can be lowered, nor
what it and its arguments are to the oracle, nor what is selected in it and rewritten. -/
theorem comments_never_matter {o : Oracle} (ho : o = .noTypes ∨ ∃ d : Declared, o = d.oracle)
    {t : Tree} (h : t.Everywhere fun n => n.kind = .comment → n.BareComment) :
    lowerExpr o t.withoutComments = lowerExpr o t ∧
      lowerStatement o t.withoutComments = lowerStatement o t ∧
      (∀ flavor drop,
        lowerFunction o flavor drop t.withoutComments = lowerFunction o flavor drop t) ∧
      bindArguments o t.withoutComments = bindArguments o t ∧
      o.typeOf t.withoutComments = o.typeOf t ∧
      o.resolvedSignature t.withoutComments = o.resolvedSignature t ∧
      t.withoutComments.referencePath = t.referencePath ∧
      select? o t.withoutComments = select? o t ∧
      Rewrite.collect o t.withoutComments = Rewrite.collect o t := by
  have hloses : t.Everywhere (LosesComments fun i => i.kind != .comment) :=
    everywhere_losesComments h
  have hredraw : t.Everywhere (Redrawable (fun i => i.kind != .comment) 0) :=
    fun p n hn => ⟨n.span.fits_zero, hloses p n hn⟩
  have hsteady : o.Steady (fun i => i.kind != .comment) 0 := by
    obtain rfl | ⟨d, rfl⟩ := ho
    · exact Oracle.noTypes_steady
    · exact d.oracle_steady
  have hrewrites := Rewrite.collect_redraw hsteady hredraw
  rw [Rewrite.moved_zero, List.map_id] at hrewrites
  rw [withoutComments, ← Span.moved_zero]
  exact ⟨(hsteady.lowerExpr_redraw hredraw).eq, (hsteady.lowerStatement_redraw hredraw).eq,
    fun flavor drop => (hsteady.lowerFunction_redraw hredraw flavor drop).eq,
    (hsteady.bindArguments_redraw hredraw).eq, hsteady.typeOf t hloses,
    hsteady.resolvedSignature t hloses, referencePath_redraw hloses,
    select?_redraw hsteady hloses, hrewrites⟩

/-- The tree of `reflect(/*a*/() => <T>x/*b*/)`, its second comment inside the assertion. -/
def commentedReflect : Tree :=
  .node ⟨.callExpression, none, true, ⟨0, 29⟩, "reflect(/*a*/() => <T>x/*b*/)"⟩
    [.node ⟨.identifier, some "function", true, ⟨0, 7⟩, "reflect"⟩ [],
      .node ⟨.arguments, some "arguments", true, ⟨7, 29⟩, "(/*a*/() => <T>x/*b*/)"⟩
        [.node ⟨.unknown "(", none, false, ⟨7, 8⟩, "("⟩ [],
          .node ⟨.comment, none, true, ⟨8, 13⟩, "/*a*/"⟩ [],
          .node ⟨.arrowFunction, none, true, ⟨13, 28⟩, "() => <T>x/*b*/"⟩
            [.node ⟨.typeAssertion, some "body", true, ⟨19, 28⟩, "<T>x/*b*/"⟩
              [.node ⟨.unknown "type_arguments", none, true, ⟨19, 22⟩, "<T>"⟩ [],
                .node ⟨.identifier, none, true, ⟨22, 23⟩, "x"⟩ [],
                .node ⟨.comment, none, true, ⟨23, 28⟩, "/*b*/"⟩ []]],
          .node ⟨.unknown ")", none, false, ⟨28, 29⟩, ")"⟩ []]]

theorem commentedReflect_rewrites :
    (commentedReflect.Everywhere fun n => n.kind = .comment → n.BareComment) ∧
      Rewrite.collect .noTypes commentedReflect.withoutComments =
        [⟨.reflect, ⟨13, 28⟩, .functionDecl [] (.blockStmt [.returnStmt (.identifier "x")])⟩] := by
  have hbare : commentedReflect.Everywhere fun n => n.kind = .comment → n.BareComment := by decide
  obtain ⟨-, -, -, -, -, -, -, -, hrewrites⟩ :=
    comments_never_matter (o := .noTypes) (.inl rfl) hbare
  refine ⟨hbare, ?_⟩
  rw [hrewrites]
  rfl

/-! ## Places -/

/-- A function lowers in the same way wherever it stands, as far as 32 bits reach.  Moved by `k`
bytes it is reflected by the same node and selects the same, and where it is refused, the same
error is `k` bytes further on. -/
theorem lowering_moves {o : Oracle} (ho : o.SpanBlind) {t : Tree} {k : Nat}
    (hfits : t.Everywhere fun n => n.span.Fits k) (drop : Nat) :
    lowerReflected o drop (t.moved k) = lowerReflected o drop t ∧
      select? o (t.moved k) = select? o t ∧
      ∀ flavor, lowerFunction o flavor drop (t.moved k) =
        (lowerFunction o flavor drop t).mapError (Failure.moved k) := by
  have hredraw : t.Everywhere (Redrawable (fun _ => true) k) :=
    fun p n hn => ⟨hfits p n hn, t.everywhere_losesComments_all p n hn⟩
  have hsteady := ho.steady k
  exact ⟨hsteady.lowerReflected_redraw hredraw drop,
    select?_redraw hsteady t.everywhere_losesComments_all,
    fun flavor => hsteady.lowerFunction_redraw hredraw flavor drop⟩

/-- The tree of an arrow function from byte 8 on that quotes the text of four bytes `hole`. -/
def quoteHole (kind : Tree.Kind) (hole : String) : Tree :=
  .node ⟨.arrowFunction, none, true, ⟨8, 25⟩, "() => `a$\x7b" ++ hole ++ "\x7db`"⟩
    [.node ⟨.templateString, some "body", true, ⟨14, 25⟩, "`a$\x7b" ++ hole ++ "\x7db`"⟩
      [.node ⟨.templateSubstitution, none, true, ⟨16, 23⟩, "$\x7b" ++ hole ++ "\x7d"⟩
        [.node ⟨.unknown "$\x7b", none, false, ⟨16, 18⟩, "$\x7b"⟩ [],
          .node ⟨kind, none, true, ⟨18, 22⟩, hole⟩ [],
          .node ⟨.unknown "\x7d", none, false, ⟨22, 23⟩, "\x7d"⟩ []]]]

def rowsTypes : Declared where
  bindings := [("rows", .name "Table")]
  types := [("Table", { properties := [("kind", .literal "Table")] })]

theorem quoteHole_moves :
    ((quoteHole .identifier "rows").Everywhere fun n => n.span.Fits 100) ∧
      lowerReflected rowsTypes.oracle 0 ((quoteHole .identifier "rows").moved 100) =
        .functionDecl [] (.blockStmt [.returnStmt (.templateExpr
          [.literal "a", .expr (.referenceExpr "rows" "rows"), .literal "b"])]) ∧
      lowerFunction .noTypes .expression 0 ((quoteHole .thisExpression "this").moved 100) =
        .error (.refused (.unsupportedConstruct "this" "this" ⟨118, 4⟩)) := by
  have hrows : (quoteHole .identifier "rows").Everywhere fun n => n.span.Fits 100 := by decide
  have hthis : (quoteHole .thisExpression "this").Everywhere fun n => n.span.Fits 100 := by decide
  obtain ⟨hreflected, -, -⟩ := lowering_moves rowsTypes.oracle_spanBlind hrows 0
  obtain ⟨-, -, hrefused⟩ := lowering_moves Oracle.noTypes_spanBlind hthis 0
  refine ⟨hrows, ?_, ?_⟩
  · rw [hreflected]
    rfl
  · rw [hrefused]
    rfl

end Reify
