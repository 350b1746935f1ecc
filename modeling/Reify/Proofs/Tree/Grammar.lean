/-
The shape that the grammar gives its trees.

Every kind that belongs to a function has a layout: fields in a fixed order, one operand, or a
row of children.  `parts` are the children that the layout names.  The grammar has more: type
syntax, the default value, decorators and modifiers of a parameter, and the initializer of a
loop head stand beside the parts, and any other child is a token or a comment.  A tree is
grammatical if each part of it, and each part of a part, keeps to its layout.

Parts are not all that a tree holds.  What else belongs to the program, and that lowering does
not read it, is said in terms of `Tree.constituents` and `Tree.overlooks`.
-/
import Mathlib.Data.List.Nodup
import Mathlib.Data.List.Sublists
import Reify.Proofs.Lowering.Outcome
import Reify.Proofs.Tree.Place

namespace Reify
namespace Tree

/-! ## Layouts -/

/-- A field of a node, with the kinds that may fill it. -/
structure Slot where
  field : String
  admits : Kind → Bool

inductive Layout
  /-- One child at most in each of these fields, in this order. -/
  | slots (slots : List Slot)
  /-- The first named child. -/
  | first
  /-- The last named child. -/
  | last
  /-- All named children, each of a kind that may stand there. -/
  | row (admits : Kind → Bool)
  /-- The holes of a template. -/
  | holes

namespace Kind

/-- A shorthand property stands in an object and nowhere else. -/
def standsAlone (k : Kind) : Bool := k != .shorthandPropertyIdentifier

end Kind

namespace Slot

/-- A field for an expression or a statement. -/
def any (field : String) : Slot := ⟨field, Kind.standsAlone⟩

def only (field : String) (kind : Kind) : Slot := ⟨field, (· == kind)⟩

end Slot

/-- The layout of a node; none for what belongs to no reflected function. -/
def layout? (t : Tree) : Option Layout :=
  match t.kind with
  | .identifier | .propertyIdentifier | .shorthandPropertyIdentifier | .undefinedLiteral
  | .nullLiteral | .trueLiteral | .falseLiteral | .numberLiteral | .stringLiteral
  | .emptyStatement => some (.slots [])
  | .templateString => some .holes
  | .templateSubstitution | .parenthesizedExpression | .asExpression | .satisfiesExpression
  | .nonNullExpression | .spreadElement | .computedPropertyName | .restPattern
  | .expressionStatement | .returnStatement | .throwStatement | .breakStatement
  | .continueStatement | .elseClause => some .first
  | .typeAssertion => some .last
  | .memberExpression =>
    some (.slots [.any "object", .only "optional_chain" .optionalChain,
      .only "property" .propertyIdentifier])
  | .subscriptExpression =>
    some (.slots [.any "object", .only "optional_chain" .optionalChain, .any "index"])
  | .callExpression => some (.slots [.any "function", .any "arguments"])
  | .newExpression => some (.slots [.any "constructor", .only "arguments" .arguments])
  | .binaryExpression | .assignmentExpression => some (.slots [.any "left", .any "right"])
  | .unaryExpression => some (.slots [.any "argument"])
  | .ternaryExpression =>
    some (.slots [.any "condition", .any "consequence", .any "alternative"])
  | .array | .arguments | .statementBlock | .formalParameters => some (.row Kind.standsAlone)
  | .object => some (.row fun _ => true)
  | .pair => some (.slots [.any "key", .any "value"])
  | .arrowFunction =>
    if (t.childByField? "parameter").isSome then
      some (.slots [.only "parameter" .identifier, .any "body"])
    else some (.slots [.only "parameters" .formalParameters, .any "body"])
  | .functionExpression | .functionDeclaration =>
    some (.slots [.only "name" .identifier, .only "parameters" .formalParameters, .any "body"])
  | .requiredParameter | .optionalParameter => some (.slots [.any "pattern"])
  | .lexicalDeclaration | .variableDeclaration => some (.row (· == .variableDeclarator))
  | .variableDeclarator => some (.slots [.any "name", .any "value"])
  | .ifStatement =>
    some (.slots [.any "condition", .any "consequence", .only "alternative" .elseClause])
  | .whileStatement => some (.slots [.any "condition", .any "body"])
  | .doStatement => some (.slots [.any "body", .any "condition"])
  | .forInStatement => some (.slots [.any "left", .any "right", .any "body"])
  | .tryStatement =>
    some (.slots [.only "body" .statementBlock, .only "handler" .catchClause,
      .only "finalizer" .finallyClause])
  | .catchClause => some (.slots [.any "parameter", .only "body" .statementBlock])
  | .finallyClause => some (.slots [.only "body" .statementBlock])
  | _ => none

/-! ## Parts -/

def fills (slots : List Slot) (c : Tree) : Bool := slots.any fun s => c.inField s.field

def parts (t : Tree) : List Tree :=
  match t.layout? with
  | some (.slots slots) => t.children.filter (fills slots)
  | some .first => t.firstNamedChild?.toList
  | some .last => t.lastNamedChild?.toList
  | some (.row _) => t.namedChildren
  | some .holes => t.children.filter (·.kind == .templateSubstitution)
  | none => t.namedChildren

/-- The named children that stand beside the parts. -/
def asides (t : Tree) : List Tree :=
  match t.layout? with
  | some (.slots slots) => t.namedChildren.filter fun c => !fills slots c
  | some .first => t.namedChildren.drop 1
  | some .last => t.namedChildren.dropLast
  | some .holes => t.namedChildren.filter (·.kind != .templateSubstitution)
  | some (.row _) | none => []

/-- A token or a comment.  Of the tokens only operators and keywords are in fields. -/
def isMark (t : Tree) : Bool :=
  t.children.isEmpty && (t.field.isNone || t.inField "operator" || t.inField "kind") &&
    match t.kind with
    | .comment | .unknown _ => true
    | _ => false

/-- Raw text inside a string or a template. -/
def isFragment (t : Tree) : Bool :=
  t.children.isEmpty && t.field.isNone &&
    (t.kind == .unknown "string_fragment" || t.kind == .unknown "escape_sequence")

def inTypeField (t : Tree) : Bool :=
  t.inField "type" || t.inField "type_parameters" || t.inField "type_arguments" ||
    t.inField "return_type"

/-- Whether the grammar lets `c` stand beside the parts of `t`: type syntax, the default value,
decorators and modifiers of a parameter, the initializer of a loop head, and the text of a
literal.  Some of these belong to the program all the same (`Tree.overlooks`). -/
def mayStandAside (t c : Tree) : Bool :=
  c.inTypeField ||
    match t.kind with
    | .asExpression | .satisfiesExpression | .typeAssertion | .requiredParameter
    | .optionalParameter => true
    | .forInStatement => c.inField "value"
    | .stringLiteral | .templateString => c.isFragment
    | _ => false

/-- The parts are in order and of the kinds that the layout asks for. -/
def KeepsLayout (t : Tree) : Option Layout → Prop
  | some (.slots slots) =>
    (t.parts.map field).Sublist (slots.map fun s => some s.field) ∧
      ∀ s ∈ slots, ∀ c ∈ t.parts, c.inField s.field = true → s.admits c.kind = true
  | some .first | some .last => ∀ c ∈ t.parts, c.kind.standsAlone = true
  | some (.row admits) => ∀ c ∈ t.parts, admits c.kind = true
  | some .holes | none => True

/-- A node whose children are its parts, tokens, comments, and what may stand aside, if it has
a layout. -/
structure Formed (t : Tree) : Prop where
  layout : t.KeepsLayout t.layout?
  asides : ∀ c ∈ t.asides, t.mayStandAside c = true
  marks : t.layout?.isSome = true → ∀ c ∈ t.children, c.isOperand = false → c.isMark = true

instance (t : Tree) (l? : Option Layout) : Decidable (t.KeepsLayout l?) := by
  unfold KeepsLayout
  split <;> infer_instance

instance (t : Tree) : Decidable t.Formed :=
  decidable_of_iff (t.KeepsLayout t.layout? ∧ (∀ c ∈ t.asides, t.mayStandAside c = true) ∧
      (t.layout?.isSome = true → ∀ c ∈ t.children, c.isOperand = false → c.isMark = true))
    ⟨fun h => ⟨h.1, h.2.1, h.2.2⟩, fun h => ⟨h.layout, h.asides, h.marks⟩⟩

/-- `d` is the tree itself, a part of it, or a part of a part of it, and so on. -/
inductive Includes : Tree → Tree → Prop
  | self (t : Tree) : Includes t t
  | part {t c d : Tree} (part : c ∈ t.parts) (below : Includes c d) : Includes t d

/-- A tree of the grammar's shape. -/
def Grammatical (t : Tree) : Prop := ∀ d, t.Includes d → d.Formed

theorem mem_of_mem_parts {t c : Tree} (h : c ∈ t.parts) : c ∈ t.children := by
  unfold parts at h
  split at h
  · exact List.mem_of_mem_filter h
  · exact mem_of_firstNamedChild? (Option.mem_toList.mp h)
  · exact mem_of_lastNamedChild? (Option.mem_toList.mp h)
  · exact mem_of_mem_namedChildren h
  · exact List.mem_of_mem_filter h
  · exact mem_of_mem_namedChildren h

theorem Everywhere.includes {P : Tree → Prop} {t d : Tree} (h : t.Everywhere P)
    (hd : t.Includes d) : P d := by
  induction hd with
  | self t => exact h.here
  | part part _ ih => exact ih (h.child (mem_of_mem_parts part))

theorem Grammatical.here {t : Tree} (h : t.Grammatical) : t.Formed := h t (.self t)

theorem Grammatical.part {t c : Tree} (h : t.Grammatical) (hc : c ∈ t.parts) : c.Grammatical :=
  fun d hd => h d (.part hc hd)

/-! ## Parts in fields -/

/-- The fields of a node, in order, if its parts are in fields. -/
def fields? (t : Tree) : Option (List String) :=
  match t.layout? with
  | some (.slots slots) => some (slots.map Slot.field)
  | _ => none

theorem layout_of_fields {t : Tree} {fields : List String} (h : t.fields? = some fields) :
    ∃ slots, t.layout? = some (.slots slots) ∧ fields = slots.map Slot.field := by
  unfold fields? at h
  split at h
  · next slots hslots => exact ⟨slots, hslots, (Option.some.inj h).symm⟩
  · cases h

/-- Nodes that fill fields in order are what the fields hold, one after the other. -/
theorem filterMap_find?_of_sublist {ts : List Tree} {fields : List String}
    (hnodup : fields.Nodup) (h : (ts.map field).Sublist (fields.map some)) :
    fields.filterMap (fun name => ts.find? (inField name)) = ts := by
  induction fields generalizing ts with
  | nil =>
    rw [List.map_nil, List.sublist_nil, List.map_eq_nil_iff] at h
    rw [h, List.filterMap_nil]
  | cons name fields ih =>
    rw [List.nodup_cons] at hnodup
    have absent {ts : List Tree} (hsub : (ts.map field).Sublist (fields.map some)) :
        ts.find? (inField name) = none := by
      rw [List.find?_eq_none]
      intro c hc hfield
      have hmem := hsub.subset (List.mem_map_of_mem hc)
      rw [beq_iff_eq.mp hfield, List.mem_map_of_injective (Option.some_injective _)] at hmem
      exact hnodup.1 hmem
    rw [List.map_cons] at h
    rcases List.sublist_cons_iff.mp h with hskip | ⟨rest, hrest, hsub⟩
    · rw [List.filterMap_cons, absent hskip]
      exact ih hnodup.2 hskip
    · obtain ⟨c, cs, rfl, hc, rfl⟩ := List.map_eq_cons_iff.mp hrest
      have hfound : (c :: cs).find? (inField name) = some c :=
        List.find?_cons_of_pos (beq_iff_eq.mpr hc)
      have hothers : ∀ other ∈ fields, (c :: cs).find? (inField other) = cs.find? (inField other) := by
        intro other hother
        refine List.find?_cons_of_neg fun hfield => ?_
        rw [inField, hc, beq_iff_eq, Option.some.injEq] at hfield
        exact hnodup.1 (hfield ▸ hother)
      rw [List.filterMap_cons, hfound, List.filterMap_congr hothers, ih hnodup.2 hsub]

theorem nodup_fields {t : Tree} {fields : List String} (h : t.fields? = some fields) :
    fields.Nodup := by
  unfold fields? layout? at h
  split at h
  · next slots hslots =>
    obtain rfl := Option.some.inj h
    split at hslots
    all_goals try split at hslots
    all_goals cases hslots
    all_goals decide
  · cases h

theorem parts_of_fields {t : Tree} {fields : List String} (h : t.fields? = some fields)
    (hformed : t.Formed) : t.parts = fields.filterMap t.childByField? := by
  have hnodup := nodup_fields h
  obtain ⟨slots, hslots, rfl⟩ := layout_of_fields h
  have hlayout := hformed.layout
  rw [hslots] at hlayout
  have hordered : (t.parts.map field).Sublist ((slots.map Slot.field).map some) := by
    rw [List.map_map]
    exact hlayout.1
  have hfind : ∀ name ∈ slots.map Slot.field,
      t.parts.find? (inField name) = t.childByField? name := by
    intro name hname
    obtain ⟨s, hs, rfl⟩ := List.mem_map.mp hname
    have hfills : (fun c : Tree => decide (fills slots c = true ∧ c.inField s.field = true)) =
        inField s.field := by
      funext c
      have himp : c.inField s.field = true → fills slots c = true := fun hc =>
        List.any_eq_true.mpr ⟨s, hs, hc⟩
      rw [Bool.eq_iff_iff, decide_eq_true_iff, and_iff_right_of_imp himp]
    rw [parts, hslots, childByField?, List.find?_filter, hfills]
  rw [← List.filterMap_congr hfind, filterMap_find?_of_sublist hnodup hordered]

def slot? (t : Tree) (name : String) : Option Slot :=
  match t.layout? with
  | some (.slots slots) => slots.find? fun s => s.field == name
  | _ => none

/-- What a field with a slot holds is a part, of a kind that the slot admits. -/
theorem part_of_slot {t c : Tree} {name : String} {s : Slot} (h : t.slot? name = some s)
    (hformed : t.Formed) (hc : t.childByField? name = some c) :
    c ∈ t.parts ∧ s.admits c.kind = true := by
  unfold slot? at h
  split at h
  · next slots hslots =>
    have hs : s ∈ slots := List.mem_of_find?_eq_some h
    have hname : s.field = name := by simpa using List.find?_some h
    have hfield : c.inField s.field = true := by
      rw [hname]
      exact List.find?_some hc
    have hpart : c ∈ t.parts := by
      rw [parts, hslots]
      exact List.mem_filter.mpr ⟨mem_of_childByField? hc, List.any_eq_true.mpr ⟨s, hs, hfield⟩⟩
    have hlayout := hformed.layout
    rw [hslots] at hlayout
    exact ⟨hpart, hlayout.2 s hs c hpart hfield⟩
  · cases h

/-- No child is in a field that the layout lacks, operators and keywords aside, if nothing in
that field stands aside. -/
theorem Formed.childByField?_eq_none {t : Tree} {fields : List String} {name : String}
    (hformed : t.Formed) (hfields : t.fields? = some fields)
    (hname : name ∉ "operator" :: "kind" :: fields)
    (haside : ∀ c ∈ t.asides, c.inField name = false) : t.childByField? name = none := by
  obtain ⟨slots, hlayout, rfl⟩ := layout_of_fields hfields
  simp only [List.mem_cons, not_or] at hname
  obtain ⟨hoperator, hkeyword, hname⟩ := hname
  rw [childByField?, List.find?_eq_none]
  intro c hc hfield
  have hnamed : c.field = some name := beq_iff_eq.mp hfield
  have hunfilled : fills slots c = false := by
    rw [fills, List.any_eq_false]
    intro s hs hin
    rw [inField, hnamed, beq_iff_eq, Option.some.injEq] at hin
    exact hname (hin ▸ List.mem_map_of_mem hs)
  cases hoperand : c.isOperand with
  | false =>
    have hmark := hformed.marks (by rw [hlayout]; rfl) c hc hoperand
    simp [isMark, inField, hnamed, hoperator, hkeyword] at hmark
  | true =>
    have hmem : c ∈ t.asides := by
      rw [Tree.asides, hlayout]
      exact List.mem_filter.mpr ⟨List.mem_filter.mpr ⟨hc, hoperand⟩, by rw [hunfilled]; rfl⟩
    rw [haside c hmem] at hfield
    cases hfield

theorem mem_parts_of_argumentList? {t list : Tree} (hformed : t.Formed)
    (h : t.argumentList? = some list) : list ∈ t.parts := by
  unfold argumentList? at h
  split at h
  · next hinvocation =>
    have hfield : t.childByField? "arguments" = some list := by
      split at h
      · next found hfound =>
        split at h
        · rw [hfound, Option.some.inj h]
        · cases h
      · cases h
    have hslot : ∃ s, t.slot? "arguments" = some s := by
      unfold isInvocation at hinvocation
      split at hinvocation
      · next hkind => exact ⟨.any "arguments", by rw [slot?, layout?, hkind]; rfl⟩
      · next hkind => exact ⟨.only "arguments" .arguments, by rw [slot?, layout?, hkind]; rfl⟩
      · cases hinvocation
    obtain ⟨s, hs⟩ := hslot
    exact (part_of_slot hs hformed hfield).1
  · cases h

/-- An argument is a part of the argument list, which is a part of the invocation. -/
theorem Grammatical.argument {t c : Tree} (h : t.Grammatical) (hc : c ∈ t.callArguments) :
    c.Grammatical ∧ c.kind.standsAlone = true := by
  unfold callArguments at hc
  split at hc
  · next list hlist =>
    have hkind : list.kind = .arguments := (argumentList?_eq_some hlist).1
    have hlayout : list.layout? = some (.row Kind.standsAlone) := by rw [layout?, hkind]
    have hlistGrammatical := h.part (mem_parts_of_argumentList? h.here hlist)
    have hpart : c ∈ list.parts := by
      rw [parts, hlayout]
      exact hc
    have hkeeps := hlistGrammatical.here.layout
    rw [hlayout] at hkeeps
    exact ⟨hlistGrammatical.part hpart, hkeeps c hpart⟩
  · cases hc

theorem fields_of_arrow {t : Tree} (hkind : t.kind = .arrowFunction) :
    t.fields? =
      some [if (t.childByField? "parameter").isSome then "parameter" else "parameters", "body"] := by
  rw [fields?, layout?, hkind]
  cases (t.childByField? "parameter").isSome <;> rfl

theorem slot_body_of_function {t : Tree} (hkind : t.kind = .arrowFunction ∨
    t.kind = .functionExpression ∨ t.kind = .functionDeclaration) :
    t.slot? "body" = some (.any "body") := by
  rcases hkind with hkind | hkind | hkind
  · rw [slot?, layout?, hkind]
    cases (t.childByField? "parameter").isSome <;> rfl
  · rw [slot?, layout?, hkind]
    rfl
  · rw [slot?, layout?, hkind]
    rfl

theorem filter_isDeclarator {t : Tree} (hformed : t.Formed)
    (hlayout : t.layout? = some (.row (· == .variableDeclarator))) :
    t.children.filter Lowering.isDeclarator = t.namedChildren := by
  have hkeeps := hformed.layout
  rw [hlayout, KeepsLayout, parts, hlayout] at hkeeps
  refine List.filter_congr fun c hc => ?_
  cases hoperand : c.isOperand with
  | false => rw [Lowering.isDeclarator, hoperand, Bool.false_and]
  | true =>
    rw [Lowering.isDeclarator, hoperand, Bool.true_and]
    exact hkeeps c (List.mem_filter.mpr ⟨hc, hoperand⟩)

def namedNode (kind : Kind) (field : Option String) (start stop : UInt32) (text : String)
    (children : List Tree) : Tree :=
  .node ⟨kind, field, true, ⟨start, stop⟩, text⟩ children

end Tree

def Position.admits : Position → Tree.Kind → Bool
  | .property, _ => true
  | .substitution, k => k == .templateSubstitution
  | .block, k => k == .statementBlock
  | .elseClause, k => k == .elseClause
  | .declarator, k => k == .variableDeclarator
  | .catchClause, k => k == .catchClause
  | .finallyClause, k => k == .finallyClause
  | .value, k | .element, k | .propertyName, k | .functionBody, k | .loopBody, k | .branch, k =>
    k.standsAlone

end Reify
