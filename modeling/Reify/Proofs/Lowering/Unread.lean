/-
Nothing outside the reflectable subset is accepted, except where lowering does not read.

A tree holds every node of the program in it; comments, type syntax and the default values of
parameters do not count (`Tree.Holds`).  Lowering leaves some of these nodes unread (`Unread`).
Two kinds of them are left by design: what is inside an access that is kept as it is written,
and what is inside an argument that no parameter takes.  The others are a defect, since the
subset has no place for them and still they are accepted: the initializer in the head of a loop
over elements or keys, and all that stands beside the pattern of a parameter, its decorators
above all (`Tree.overlooks`).  Whatever stands there, lowering goes as if it did not
(`lowering_overlooks`).  Everywhere else the subset is kept: in a tree that lowers, the
unsupported nodes are the unread ones, and an unsupported node that is read is refused
(`unsupported_held_iff_unread`).
-/
import Reify.Proofs.Lowering.Blame
import Reify.Proofs.Lowering.Subset
import Reify.Types.Declared

namespace Reify

open Lowering

variable {o : Oracle}

/-! ## Nodes of a tree -/

namespace Tree

/-- The children that the program consists of: named ones, but neither comments nor type syntax
nor the default value of a parameter. -/
def constituents (t : Tree) : List Tree :=
  match t.kind with
  | .asExpression | .satisfiesExpression => t.firstNamedChild?.toList
  | .typeAssertion => t.lastNamedChild?.toList
  | .requiredParameter | .optionalParameter =>
    t.namedChildren.filter fun c => !c.inTypeField && !c.inField "value"
  | _ => t.namedChildren.filter fun c => !c.inTypeField

/-- `d` is the tree itself or a node anywhere in it. -/
inductive Holds : Tree → Tree → Prop
  | self (t : Tree) : Holds t t
  | child {t c d : Tree} (child : c ∈ t.constituents) (below : Holds c d) : Holds t d

/-- Whether `c` is a child of `t` that lowering never reads: the initializer in the head of a
loop, or anything in a parameter but its pattern. -/
def overlooks (t c : Tree) : Bool :=
  c.named &&
    match t.kind with
    | .forInStatement => c.inField "value"
    | .requiredParameter | .optionalParameter => !c.inField "pattern"
    | _ => false

theorem mem_namedChildren_of_constituent {t c : Tree} (h : c ∈ t.constituents) :
    c ∈ t.namedChildren := by
  unfold constituents at h
  split at h
  case h_1 | h_2 => exact List.mem_of_mem_head? (Option.mem_toList.mp h)
  case h_3 => exact List.mem_of_getLast? (Option.mem_toList.mp h)
  all_goals exact List.mem_of_mem_filter h

theorem mem_parts_or_asides {t c : Tree} (h : c ∈ t.namedChildren) :
    c ∈ t.parts ∨ c ∈ t.asides := by
  have hchild : c ∈ t.children := mem_of_mem_namedChildren h
  cases hlayout : t.layout? with
  | none => exact .inl (by rwa [parts, hlayout])
  | some layout =>
    rw [parts, asides, hlayout]
    cases layout with
    | slots slots => cases hfills : fills slots c <;> simp [hchild, h, hfills]
    | first =>
      rw [firstNamedChild?]
      cases hcs : t.namedChildren with
      | nil => simp [hcs] at h
      | cons first rest => simpa [hcs] using h
    | last =>
      rw [lastNamedChild?]
      cases hlast : t.namedChildren.getLast? with
      | none => simp [List.getLast?_eq_none_iff.mp hlast] at h
      | some last =>
        obtain ⟨rest, hrest⟩ := List.getLast?_eq_some_iff.mp hlast
        rw [hrest, List.dropLast_concat]
        simpa [hrest, or_comm] using h
    | row admits => exact .inl h
    | holes => cases hkind : c.kind == .templateSubstitution <;> simp [hchild, h, hkind, bne]

/-- A constituent is a part, unless lowering overlooks it or it is raw text. -/
theorem Formed.constituent {t c : Tree} (hformed : t.Formed) (h : c ∈ t.constituents) :
    c ∈ t.parts ∨ t.overlooks c = true ∨ c.isFragment = true := by
  have hnamed := mem_namedChildren_of_constituent h
  rcases mem_parts_or_asides hnamed with hpart | haside
  · exact .inl hpart
  have hword : c.named = true := (Bool.and_eq_true_iff.mp (List.mem_filter.mp hnamed).2).1
  unfold constituents at h
  split at h
  case h_1 hkind | h_2 hkind => exact .inl (by rwa [parts, layout?, hkind])
  case h_3 hkind => exact .inl (by rwa [parts, layout?, hkind])
  case h_4 hkind | h_5 hkind =>
    rw [Tree.asides, layout?, hkind] at haside
    have hunfilled := (List.mem_filter.mp haside).2
    refine .inr (.inl ?_)
    rw [overlooks, hkind, hword]
    simpa [fills, Slot.any] using hunfilled
  case h_6 =>
    have htype : c.inTypeField = false := by simpa using (List.mem_filter.mp h).2
    have hstands := hformed.asides c haside
    rw [mayStandAside, htype, Bool.false_or] at hstands
    split at hstands
    case h_6 hkind => exact .inr (.inl (by rw [overlooks, hkind, hword, hstands]; rfl))
    case h_7 | h_8 => exact .inr (.inr hstands)
    case h_9 => cases hstands
    all_goals contradiction

end Tree

/-! ## What is left unread -/

/-- Lowering `t` does not read the node `d` in it. -/
inductive Unread (o : Oracle) : Tree → Tree → Prop
  /-- Inside an access that is kept as it is written. -/
  | kept {t c d : Tree} (kept : isKept o t = true) (child : c ∈ t.constituents)
    (below : c.Holds d) : Unread o t d
  /-- Inside an argument that no parameter takes. -/
  | surplus {t list c d : Tree} (arguments : t.argumentList? = some list)
    (child : list ∈ t.constituents) (argument : c ∈ list.constituents)
    (unbound : c ∉ boundArguments o t) (below : c.Holds d) : Unread o t d
  /-- Inside what is overlooked. -/
  | overlooked {t c d : Tree} (child : c ∈ t.constituents) (overlooked : t.overlooks c = true)
    (below : c.Holds d) : Unread o t d
  | child {t c d : Tree} (child : c ∈ t.constituents) (below : Unread o c d) : Unread o t d

theorem Unread.holds {t d : Tree} (h : Unread o t d) : t.Holds d := by
  induction h with
  | kept _ child below => exact .child child below
  | surplus _ child argument _ below => exact .child child (.child argument below)
  | overlooked child _ below => exact .child child below
  | child child _ ih => exact .child child ih

/-- A node that is read whole leaves unread only what its constituents do. -/
theorem not_unread {t d : Tree} (hkept : isKept o t = false)
    (hbound : ∀ c ∈ t.callArguments, c ∈ boundArguments o t)
    (hread : ∀ c ∈ t.constituents, t.overlooks c = false ∧ ¬Unread o c d) : ¬Unread o t d := by
  intro h
  cases h with
  | kept kept =>
    rw [hkept] at kept
    cases kept
  | surplus arguments _ argument unbound =>
    refine unbound (hbound _ ?_)
    rw [Tree.callArguments, arguments]
    exact Tree.mem_namedChildren_of_constituent argument
  | overlooked child overlooked =>
    rw [(hread _ child).1] at overlooked
    cases overlooked
  | child child below => exact (hread _ child).2 below

theorem Tree.supported_of_isFragment {c d : Tree} (h : c.isFragment = true) (hd : c.Holds d) :
    d.isUnsupported = false := by
  rw [isFragment, Bool.and_eq_true, Bool.and_eq_true, List.isEmpty_iff, Bool.or_eq_true,
    beq_iff_eq, beq_iff_eq] at h
  obtain ⟨⟨hempty, -⟩, hkind⟩ := h
  cases hd with
  | self => rcases hkind with hkind | hkind <;> simp [isUnsupported, hkind]
  | child child =>
    have hchild := mem_of_mem_namedChildren (mem_namedChildren_of_constituent child)
    rw [hempty] at hchild
    cases hchild

theorem exposes_or_unread (t : Tree) : t.Grammatical → ∀ d, t.Holds d → d.isUnsupported = true →
    Exposes o t d ∨ Unread o t d := by
  induction t using Tree.induct_below with
  | node t ih =>
    intro hgrammatical d hd hunsupported
    cases hd with
    | self => exact .inl (.self t)
    | @child _ c _ child below =>
      have hnamed := Tree.mem_namedChildren_of_constituent child
      obtain ⟨ihchild, ihbelow⟩ := ih c (Tree.mem_of_mem_namedChildren hnamed)
      cases hkept : isKept o t with
      | true => exact .inr (.kept hkept child below)
      | false =>
        rcases hgrammatical.here.constituent child with hpart | hoverlooked | hfragment
        · by_cases hlist : t.argumentList? = some c
          · cases below with
            | self =>
              rw [Tree.isUnsupported, (Tree.argumentList?_eq_some hlist).1] at hunsupported
              cases hunsupported
            | @child _ e _ argument below =>
              have helement := Tree.mem_namedChildren_of_constituent argument
              have hargument : e ∈ t.callArguments := by rwa [Tree.callArguments, hlist]
              by_cases hbound : e ∈ boundArguments o t
              · have he := ihbelow e (Tree.mem_of_mem_namedChildren helement)
                  (hgrammatical.argument hargument).1 d below hunsupported
                exact he.imp (.argument hbound) fun h => .child child (.child argument h)
              · exact .inr (.surplus hlist child argument hbound below)
          · have hc := ihchild (hgrammatical.part hpart) d below hunsupported
            exact hc.imp (.part hkept hpart hlist) (.child child)
        · exact .inr (.overlooked child hoverlooked below)
        · rw [Tree.supported_of_isFragment hfragment below] at hunsupported
          cases hunsupported

/-! ## What is overlooked -/

section Overlooked

variable {i : Tree.Info} {before after : List Tree} {c : Tree}

theorem find?_without {p : Tree → Bool} (h : p c = false) :
    (before ++ c :: after).find? p = (before ++ after).find? p := by
  rw [List.find?_append, List.find?_cons, h, List.find?_append]

/-- A loop is lowered without regard to the initializer in its head. -/
theorem lowerStatement_without_initializer (hkind : i.kind = .forInStatement)
    (hnamed : c.named = true) (hvalue : c.inField "value" = true) :
    lowerStatement o (.node i (before ++ c :: after)) =
      lowerStatement o (.node i (before ++ after)) := by
  have hfield (name : String) (hname : ("value" == name) = false) :
      (before ++ c :: after).find? (Tree.inField name) =
        (before ++ after).find? (Tree.inField name) := by
    refine find?_without ?_
    rw [Tree.inField, beq_iff_eq] at hvalue
    rw [Tree.inField, hvalue]
    exact hname
  have hpart (pos : Position) (name : String) (hname : ("value" == name) = false) :
      (lowerChildren o pos (Tree.inField name) (before ++ c :: after)).head? =
        (lowerChildren o pos (Tree.inField name) (before ++ after)).head? := by
    rw [head?_lowerChildren, head?_lowerChildren, hfield name hname]
  have htoken (token : String) : (Tree.node i (before ++ c :: after)).hasToken token =
      (Tree.node i (before ++ after)).hasToken token := by
    simp [Tree.hasToken, Tree.children, hnamed]
  simp only [lowerStatement, hkind, htoken, loopVariable, requiredField, Tree.childByField?,
    Tree.children, Tree.info, hfield "left" rfl, hpart .value "right" rfl,
    hpart .loopBody "body" rfl]

theorem parameterName_without (hkind : i.kind = .requiredParameter ∨ i.kind = .optionalParameter)
    (hbeside : c.inField "pattern" = false) :
    Function.parameterName (.node i (before ++ c :: after)) =
      Function.parameterName (.node i (before ++ after)) := by
  rcases hkind with hkind | hkind <;>
    simp only [Function.parameterName, Tree.kind, Tree.info, hkind, Tree.childByField?,
      Tree.children, find?_without hbeside]

/-- A child that is overlooked may as well be missing. -/
theorem lowering_overlooks (h : (Tree.node i (before ++ c :: after)).overlooks c = true) :
    lowerExpr o (.node i (before ++ c :: after)) = lowerExpr o (.node i (before ++ after)) ∧
    lowerStatement o (.node i (before ++ c :: after)) =
      lowerStatement o (.node i (before ++ after)) ∧
    Function.parameterName (.node i (before ++ c :: after)) =
      Function.parameterName (.node i (before ++ after)) := by
  rw [Tree.overlooks, Bool.and_eq_true] at h
  obtain ⟨hnamed, hread⟩ := h
  split at hread
  case h_1 hkind =>
    have hkind : i.kind = .forInStatement := hkind
    refine ⟨?_, lowerStatement_without_initializer hkind hnamed hread, ?_⟩
    · simp only [lowerExpr, hkind]
    · simp only [Function.parameterName, Function.patternName, Tree.kind, Tree.info, hkind]
  case h_2 hkind | h_3 hkind =>
    have hkind : i.kind = _ := hkind
    have hbeside : c.inField "pattern" = false := by simpa using hread
    refine ⟨?_, ?_, parameterName_without (by simp [hkind]) hbeside⟩
    · simp only [lowerExpr, hkind]
    · simp only [lowerStatement, hkind]
  case h_4 => cases hread

end Overlooked

/-! ## The subset -/

/-- The tree lowers as an expression, as a statement or as a function. -/
def Lowers (o : Oracle) (t : Tree) : Prop :=
  (∃ n, lowerExpr o t = .ok n) ∨ (∃ ns, lowerStatement o t = .ok ns) ∨
    ∃ flavor drop n, lowerFunction o flavor drop t = .ok n

theorem Lowers.supported {t : Tree} (h : Lowers o t) (hgrammatical : t.Grammatical) :
    Supported o t := by
  obtain ⟨n, hn⟩ | ⟨ns, hns⟩ | ⟨flavor, drop, n, hn⟩ := h
  · exact (vetted t hgrammatical).expr n hn
  · exact (vetted t hgrammatical).statement ns hns
  · exact lowerFunction_supported hgrammatical hn

theorem Lowers.unread {t d : Tree} (h : Lowers o t) (hgrammatical : t.Grammatical)
    (hd : t.Holds d) (hunsupported : d.isUnsupported = true) : Unread o t d := by
  rcases exposes_or_unread t hgrammatical d hd hunsupported with hexposed | hunread
  · rw [h.supported hgrammatical d hexposed] at hunsupported
    cases hunsupported
  · exact hunread

/-- Lowering fails, and it refuses a construct or an operator. -/
def Refused {α : Type} (r : Lowering α) : Prop := ∃ f, r = .error f ∧ f.Refuses

theorem refused_of_fails {α : Type} {t : Tree} {r : Lowering α} (hfails : FailsBy (Blamed o t) r)
    (hsound : t.Everywhere (Sound o)) (hnever : ∀ a, r ≠ .ok a) : Refused r := by
  cases r with
  | ok a => exact absurd rfl (hnever a)
  | error f => exact ⟨f, rfl, (hfails f rfl).refuses hsound⟩

theorem refused_of_not_lowers {t : Tree} (h : ¬Lowers o t) (hsound : t.Everywhere (Sound o)) :
    Refused (lowerExpr o t) ∧ Refused (lowerStatement o t) ∧
      (t.isFunctionLike = true → ∀ flavor drop, Refused (lowerFunction o flavor drop t)) := by
  refine ⟨?_, ?_, fun hlike flavor drop => ?_⟩
  · exact refused_of_fails (lowerExpr_fails o t) hsound fun n hn => h (.inl ⟨n, hn⟩)
  · exact refused_of_fails (blames o t).statement hsound fun ns hns => h (.inr (.inl ⟨ns, hns⟩))
  · exact refused_of_fails (lowerFunction_fails o flavor drop hlike) hsound fun n hn =>
      h (.inr (.inr ⟨flavor, drop, n, hn⟩))

/-- In a tree of the grammar's shape that lowers, the unsupported nodes are those that are left
unread.  A tree that holds an unsupported node which is not left unread does not lower; and if no
callee in it is overloaded, every function has a body, and every span covers the spans below it,
then lowering refuses a construct or an operator.  What is overlooked decides nothing. -/
theorem unsupported_held_iff_unread {t : Tree} (grammatical : t.Grammatical) :
    (Lowers o t → ∀ d, d.isUnsupported = true → (t.Holds d ↔ Unread o t d)) ∧
    (∀ d, t.Holds d → d.isUnsupported = true → ¬Unread o t d → ¬Lowers o t ∧
      (t.Everywhere (Sound o) →
        Refused (lowerExpr o t) ∧ Refused (lowerStatement o t) ∧
          (t.isFunctionLike = true →
            ∀ flavor drop, Refused (lowerFunction o flavor drop t)))) ∧
    ∀ i before c after, (Tree.node i (before ++ c :: after)).overlooks c = true →
      lowerExpr o (.node i (before ++ c :: after)) = lowerExpr o (.node i (before ++ after)) ∧
      lowerStatement o (.node i (before ++ c :: after)) =
        lowerStatement o (.node i (before ++ after)) ∧
      Function.parameterName (.node i (before ++ c :: after)) =
        Function.parameterName (.node i (before ++ after)) := by
  refine ⟨fun hlowers d hunsupported => ?_, fun d hd hunsupported hread => ?_, ?_⟩
  · exact ⟨fun hd => hlowers.unread grammatical hd hunsupported, Unread.holds⟩
  · have hnever : ¬Lowers o t := fun hlowers =>
      hread (hlowers.unread grammatical hd hunsupported)
    exact ⟨hnever, refused_of_not_lowers hnever⟩
  · exact fun _ _ _ _ => lowering_overlooks

def shopTypes : Declared where
  bindings := [("tables", .name "Tables"), ("check", .name "Check")]
  types := [("Tables", { element := some (.name "Table") }),
    ("Table", { properties := [("kind", .literal "Table")] }),
    ("Check", { signatures := [["value"]] })]

def nextUpdate (field : Option String) (b : UInt32) : Tree :=
  .namedNode .updateExpression field b (b + 6) "next++"
    [.namedNode .identifier (some "argument") b (b + 4) "next" [],
      .node ⟨.unknown "++", some "operator", false, ⟨b + 4, b + 6⟩, "++"⟩ []]

def checkNext : Tree :=
  .namedNode .callExpression none 0 13 "check(next++)"
    [.namedNode .identifier (some "function") 0 5 "check" [],
      .namedNode .arguments (some "arguments") 5 13 "(next++)" [nextUpdate none 6]]

theorem checkNext_reads_update : ¬Unread shopTypes.oracle checkNext (nextUpdate none 6) := by
  have hempty {P : Tree → Prop} : ∀ c ∈ ([] : List Tree), P c := List.forall_mem_nil P
  have hargument : ¬Unread shopTypes.oracle (nextUpdate none 6) (nextUpdate none 6) :=
    not_unread rfl hempty (List.forall_mem_singleton.mpr ⟨rfl, not_unread rfl hempty hempty⟩)
  have hlist : ∀ list ∈ checkNext.argumentList?,
      ¬Unread shopTypes.oracle list (nextUpdate none 6) := by
    rintro _ ⟨⟩
    exact not_unread rfl hempty (List.forall_mem_singleton.mpr ⟨rfl, hargument⟩)
  refine not_unread rfl (fun c hc => hc) (List.forall_mem_cons.mpr ⟨⟨rfl, ?_⟩, ?_⟩)
  · exact not_unread rfl hempty hempty
  · exact List.forall_mem_singleton.mpr ⟨rfl, hlist _ rfl⟩

def thisValue (field : Option String) (b : UInt32) : Tree :=
  .namedNode .thisExpression field b (b + 4) "this" []

def totalUpdate (b : UInt32) : Tree :=
  .namedNode .augmentedAssignmentExpression none b (b + 10) "total += 1"
    [.namedNode .identifier (some "left") b (b + 5) "total" [],
      .node ⟨.unknown "+=", some "operator", false, ⟨b + 6, b + 8⟩, "+="⟩ [],
      .namedNode .numberLiteral (some "right") (b + 9) (b + 10) "1" []]

/-- The tree of
`(@dec(this) a) => { for (var i = this in a) check(tables[next++], total += 1); }`. -/
def checkEach : Tree :=
  let decorator := Tree.namedNode (.unknown "decorator") (some "decorator") 1 11 "@dec(this)"
    [.namedNode .callExpression none 2 11 "dec(this)"
      [.namedNode .identifier (some "function") 2 5 "dec" [],
        .namedNode .arguments (some "arguments") 5 11 "(this)" [thisValue none 6]]]
  let call := Tree.namedNode .callExpression none 44 77 "check(tables[next++], total += 1)"
    [.namedNode .identifier (some "function") 44 49 "check" [],
      .namedNode .arguments (some "arguments") 49 77 "(tables[next++], total += 1)"
        [.namedNode .subscriptExpression none 50 64 "tables[next++]"
            [.namedNode .identifier (some "object") 50 56 "tables" [],
              nextUpdate (some "index") 57],
          totalUpdate 66]]
  let loop := Tree.namedNode .forInStatement none 20 78
    "for (var i = this in a) check(tables[next++], total += 1);"
    [.node ⟨.unknown "var", some "kind", false, ⟨25, 28⟩, "var"⟩ [],
      .namedNode .identifier (some "left") 29 30 "i" [],
      thisValue (some "value") 33,
      .node ⟨.unknown "in", some "operator", false, ⟨38, 40⟩, "in"⟩ [],
      .namedNode .identifier (some "right") 41 42 "a" [],
      .namedNode .expressionStatement (some "body") 44 78 "check(tables[next++], total += 1);"
        [call]]
  .namedNode .arrowFunction none 0 80
    "(@dec(this) a) => { for (var i = this in a) check(tables[next++], total += 1); }"
    [.namedNode .formalParameters (some "parameters") 0 14 "(@dec(this) a)"
        [.namedNode .requiredParameter none 1 13 "@dec(this) a"
          [decorator, .namedNode .identifier (some "pattern") 12 13 "a" []]],
      .namedNode .statementBlock (some "body") 18 80
        "{ for (var i = this in a) check(tables[next++], total += 1); }" [loop]]

/-- An update is refused in an argument that a parameter takes.  In the index of a table, in a
surplus argument, in a decorator and in the head of a loop, what is unsupported is accepted. -/
theorem checkEach_unread :
    (¬Lowers shopTypes.oracle checkNext ∧ Refused (lowerExpr shopTypes.oracle checkNext)) ∧
    lowerFunction shopTypes.oracle .declaration 0 checkEach =
      .ok (.functionDecl [.parameterDecl "a"] (.blockStmt
        [.forInStmt (.variableStmt "i" none) (.identifier "a") (.blockStmt
          [.exprStmt (.callExpr (.identifier "check")
            [.argument (some (.referenceExpr "" "tables[next++]")) (some "value")])])])) ∧
    ∀ d ∈ [thisValue none 6, thisValue (some "value") 33, nextUpdate (some "index") 57,
        totalUpdate 66],
      d.isUnsupported = true ∧ checkEach.Holds d ∧ Unread shopTypes.oracle checkEach d := by
  have hnext : checkNext.Everywhere Tree.Formed := by decide
  have heach : checkEach.Everywhere Tree.Formed := by decide
  have hsound : checkNext.Everywhere (Sound shopTypes.oracle) := by decide
  have step {t c d : Tree} (i : Nat) (h : t.constituents[i]? = some c) (below : c.Holds d) :
      t.Holds d := .child (List.mem_of_getElem? h) below
  have hupdate : checkNext.Holds (nextUpdate none 6) := step 1 rfl (step 0 rfl (.self _))
  obtain ⟨hnever, hrefused⟩ :=
    (unsupported_held_iff_unread fun d hd => hnext.includes hd).2.1 _ hupdate rfl
      checkNext_reads_update
  refine ⟨⟨hnever, (hrefused hsound).1⟩, rfl, fun d hd => ?_⟩
  have hunsupported : d.isUnsupported = true := by
    revert d
    decide
  have hlowers : Lowers shopTypes.oracle checkEach := .inr (.inr ⟨.declaration, 0, _, rfl⟩)
  have hunread := (unsupported_held_iff_unread fun d hd => heach.includes hd).1 hlowers d
  have hheld : checkEach.Holds d := by
    simp only [List.mem_cons, List.not_mem_nil, or_false] at hd
    rcases hd with rfl | rfl | rfl | rfl
    · exact step 0 rfl (step 0 rfl (step 0 rfl (step 0 rfl (step 1 rfl (step 0 rfl (.self _))))))
    · exact step 1 rfl (step 0 rfl (step 1 rfl (.self _)))
    · exact step 1 rfl (step 0 rfl (step 3 rfl (step 0 rfl (step 1 rfl (step 0 rfl
        (step 1 rfl (.self _)))))))
    · exact step 1 rfl (step 0 rfl (step 3 rfl (step 0 rfl (step 1 rfl (step 1 rfl (.self _))))))
  exact ⟨hunsupported, hheld, (hunread hunsupported).mp hheld⟩

end Reify
