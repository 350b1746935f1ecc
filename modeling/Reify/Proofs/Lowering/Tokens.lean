/-
Lowering keeps the tokens of a function.

The tokens of a tree are its names, strings and numbers, in the order of the source.  The
payloads of a node are the names, strings and numbers that it is constructed from, in the order
of construction.  Without types, a bare function lowers to a node whose payloads are the tokens
of its parameters and its body, but for `undefined`, which may be a literal (`lowerFunction_keeps_tokens`):
every construct puts its parts in the order in which they were written.
-/
import Reify.Node.Traversal
import Reify.Proofs.Lowering.Parts
import Reify.Proofs.Tree.Grammar

namespace Reify

open Lowering

/-! ## Payloads of a node -/

namespace Node

/-- The name or raw text that a node itself is constructed from. -/
def payload? : Node → Option String
  | parameterDecl name | variableStmt name _ | propAccessExpr _ name _ | identifier name =>
    some name
  | stringLiteralExpr raw | numberLiteralExpr raw => some raw
  | _ => none

/-- The payloads of a node, given those of its children.  A property is named after the object
that has it. -/
def payloadsAt (n : Node) (below : List (List String)) : List String :=
  match n with
  | propAccessExpr _ name _ => below.flatten ++ [name]
  | n => n.payload?.toList ++ below.flatten

def payloads (n : Node) : List String := fold payloadsAt n

theorem payloads_eq (n : Node) : n.payloads = payloadsAt n (n.children.map payloads) :=
  fold_eq payloadsAt n

end Node

/-! ## Tokens of a tree -/

namespace Tree

namespace Kind

/-- Whether a node of this kind is one token of text. -/
def isToken : Kind → Bool
  | .identifier | .propertyIdentifier | .shorthandPropertyIdentifier | .stringLiteral
  | .numberLiteral => true
  | _ => false

end Kind

mutual

/-- The tokens in a tree, from left to right.  A shorthand property is both a name and a
value. -/
def tokens : Tree → List String
  | .node info children =>
    match info.kind with
    | .shorthandPropertyIdentifier => [info.text, info.text]
    | kind => if kind.isToken then [info.text] else tokensIn children

def tokensIn : List Tree → List String
  | [] => []
  | t :: ts => tokens t ++ tokensIn ts

end

theorem tokensIn_eq (ts : List Tree) : tokensIn ts = ts.flatMap tokens := by
  induction ts with
  | nil => rfl
  | cons t ts ih => rw [tokensIn, ih, List.flatMap_cons]

theorem tokens_of_not_token {t : Tree} (h : t.kind.isToken = false) :
    t.tokens = t.children.flatMap tokens := by
  obtain ⟨info, children⟩ := t
  unfold tokens
  split
  · next hk => rw [kind, Tree.info, hk] at h; cases h
  · rw [if_neg (Bool.not_eq_true _ ▸ h), tokensIn_eq]
    rfl

/-- A modifier of a parameter. -/
def isModifier (t : Tree) : Bool :=
  t.field.isNone && t.children.all isMark &&
    (t.kind == .unknown "accessibility_modifier" || t.kind == .unknown "override_modifier")

/-- A node that nothing with a name stands beside: no type syntax, no default value or decorator
of a parameter, and no initializer of a loop head; and no name of a function expression. -/
structure Bare (t : Tree) : Prop where
  asides : ∀ c ∈ t.asides, (c.isFragment || c.isModifier) = true
  unnamed : t.kind = .functionExpression → t.childByField? "name" = none

theorem tokens_of_isMark {t : Tree} (h : t.isMark = true) : t.tokens = [] := by
  rw [isMark, Bool.and_eq_true, Bool.and_eq_true, List.isEmpty_iff] at h
  have htoken : t.kind.isToken = false := by
    have hkind := h.2
    split at hkind
    · next hk => rw [hk]; rfl
    · next hk => rw [hk]; rfl
    · cases hkind
  rw [tokens_of_not_token htoken, h.1.1, List.flatMap_nil]

theorem tokens_of_isFragment {t : Tree} (h : t.isFragment = true) : t.tokens = [] := by
  rw [isFragment, Bool.and_eq_true, Bool.and_eq_true, List.isEmpty_iff, Bool.or_eq_true,
    beq_iff_eq, beq_iff_eq] at h
  have htoken : t.kind.isToken = false := by
    rcases h.2 with hk | hk <;> rw [hk] <;> rfl
  rw [tokens_of_not_token htoken, h.1.1, List.flatMap_nil]

theorem tokens_of_isModifier {t : Tree} (h : t.isModifier = true) : t.tokens = [] := by
  rw [isModifier, Bool.and_eq_true, Bool.and_eq_true, List.all_eq_true, Bool.or_eq_true,
    beq_iff_eq, beq_iff_eq] at h
  have htoken : t.kind.isToken = false := by
    rcases h.2 with hk | hk <;> rw [hk] <;> rfl
  rw [tokens_of_not_token htoken, List.flatMap_eq_nil_iff]
  exact fun c hc => tokens_of_isMark (h.1.2 c hc)

theorem Bare.tokens_of_aside {t c : Tree} (h : t.Bare) (hc : c ∈ t.asides) : c.tokens = [] := by
  rcases Bool.or_eq_true_iff.mp (h.asides c hc) with hfragment | hmodifier
  · exact tokens_of_isFragment hfragment
  · exact tokens_of_isModifier hmodifier

theorem Bare.field_of_aside {t c : Tree} (h : t.Bare) (hc : c ∈ t.asides) : c.field = none := by
  rcases Bool.or_eq_true_iff.mp (h.asides c hc) with hfragment | hmodifier
  · rw [isFragment, Bool.and_eq_true, Bool.and_eq_true] at hfragment
    exact Option.isNone_iff_eq_none.mp hfragment.1.2
  · rw [isModifier, Bool.and_eq_true, Bool.and_eq_true] at hmodifier
    exact Option.isNone_iff_eq_none.mp hmodifier.1.1

theorem flatMap_tokens_filter {p : Tree → Bool} {ts : List Tree}
    (h : ∀ c ∈ ts, p c = false → c.tokens = []) :
    (ts.filter p).flatMap tokens = ts.flatMap tokens := by
  induction ts with
  | nil => rfl
  | cons t ts ih =>
    rw [List.forall_mem_cons] at h
    rw [List.filter_cons]
    cases hp : p t with
    | true => rw [if_pos rfl, List.flatMap_cons, List.flatMap_cons, ih h.2]
    | false =>
      rw [if_neg Bool.false_ne_true, List.flatMap_cons, h.1 hp, List.nil_append, ih h.2]

theorem tokens_eq_parts {t : Tree} {layout : Layout} (hformed : t.Formed) (hbare : t.Bare)
    (hlayout : t.layout? = some layout) (h : t.kind.isToken = false) :
    t.tokens = t.parts.flatMap tokens := by
  have hmark : ∀ c ∈ t.children, c.isOperand = false → c.tokens = [] := fun c hc hoperand =>
    tokens_of_isMark (hformed.marks (by rw [hlayout]; rfl) c hc hoperand)
  have haside : ∀ c ∈ t.asides, c.tokens = [] := fun _ => hbare.tokens_of_aside
  have hnamed : t.namedChildren.flatMap tokens = t.children.flatMap tokens :=
    flatMap_tokens_filter hmark
  -- a named child that is left out stands aside, and any other is a mark
  have hfilter (p : Tree → Bool) (hp : ∀ c ∈ t.namedChildren, p c = false → c ∈ t.asides) :
      (t.children.filter p).flatMap tokens = t.children.flatMap tokens := by
    refine flatMap_tokens_filter fun c hc hpc => ?_
    cases hoperand : c.isOperand with
    | false => exact hmark c hc hoperand
    | true => exact haside c (hp c (List.mem_filter.mpr ⟨hc, hoperand⟩) hpc)
  rw [tokens_of_not_token h]
  cases layout with
  | slots slots =>
    rw [parts, hlayout]
    refine (hfilter _ fun c hc hfills => ?_).symm
    rw [asides, hlayout]
    exact List.mem_filter.mpr ⟨hc, by rw [hfills]; rfl⟩
  | first =>
    have hrest : (t.namedChildren.drop 1).flatMap tokens = [] := by
      rw [List.flatMap_eq_nil_iff]
      intro c hc
      exact haside c (by rw [asides, hlayout]; exact hc)
    rw [parts, hlayout, ← hnamed, firstNamedChild?]
    cases hcs : t.namedChildren with
    | nil => rfl
    | cons c cs =>
      rw [hcs] at hrest
      rw [List.flatMap_cons, show cs.flatMap tokens = [] from hrest, List.append_nil]
      exact (List.flatMap_singleton tokens c).symm
  | last =>
    have hrest : t.namedChildren.dropLast.flatMap tokens = [] := by
      rw [List.flatMap_eq_nil_iff]
      intro c hc
      exact haside c (by rw [asides, hlayout]; exact hc)
    rw [parts, hlayout, ← hnamed, lastNamedChild?]
    cases hlast : t.namedChildren.getLast? with
    | none =>
      rw [List.getLast?_eq_none_iff.mp hlast]
      rfl
    | some c =>
      obtain ⟨cs, hcs⟩ := List.getLast?_eq_some_iff.mp hlast
      rw [hcs, List.dropLast_concat] at hrest
      rw [hcs, List.flatMap_append, hrest, List.nil_append]
      rfl
  | row admits => rw [parts, hlayout, hnamed]
  | holes =>
    rw [parts, hlayout]
    refine (hfilter _ fun c hc hkind => ?_).symm
    rw [asides, hlayout]
    exact List.mem_filter.mpr ⟨hc, by rw [bne, hkind]; rfl⟩

end Tree

/-! ## Spelling -/

/-- Tokens or payloads without `undefined`. -/
def spelled (names : List String) : List String := names.filter (· != "undefined")

@[simp] theorem spelled_nil : spelled [] = [] := rfl

theorem spelled_append (xs ys : List String) : spelled (xs ++ ys) = spelled xs ++ spelled ys :=
  List.filter_append ..

theorem spelled_flatMap {α : Type} (f : α → List String) (as : List α) :
    spelled (as.flatMap f) = as.flatMap fun a => spelled (f a) :=
  List.filter_flatMap ..

def Node.spelling (n : Node) : List String := spelled n.payloads

def Tree.spelling (t : Tree) : List String := spelled t.tokens

def Tree.spellingAt (t : Tree) (name : String) : List String :=
  (t.childByField? name).toList.flatMap spelling

namespace Node

theorem spelling_propAccess (n : Node) (name : String) (type : Option String) :
    (propAccessExpr n name type).spelling = n.spelling ++ spelled [name] := by
  rw [spelling, payloads_eq, payloadsAt, spelled_append, children]
  simp [spelling]

/-- A node spells its own payload and then its children. -/
theorem spelling_eq {n : Node} (h : (n.kind == .propAccessExpr) = false) :
    n.spelling = spelled n.payload?.toList ++ n.children.flatMap spelling := by
  rw [spelling, payloads_eq]
  unfold payloadsAt
  split
  · cases h
  · rw [spelled_append, ← List.flatMap_def, spelled_flatMap]
    rfl

end Node

namespace Tree

variable {t : Tree}

theorem spelling_eq_parts {layout : Layout} (hformed : t.Formed) (hbare : t.Bare)
    (hlayout : t.layout? = some layout) (h : t.kind.isToken = false) :
    t.spelling = t.parts.flatMap spelling := by
  rw [spelling, tokens_eq_parts hformed hbare hlayout h, spelled_flatMap]
  rfl

/-- A bare node that is no token spells what its fields hold, in the order of its layout. -/
theorem spelling_of_fields {fields : List String} (h : t.fields? = some fields)
    (hformed : t.Formed) (hbare : t.Bare) (htoken : t.kind.isToken = false) :
    t.spelling = fields.flatMap t.spellingAt := by
  obtain ⟨slots, hlayout, -⟩ := layout_of_fields h
  rw [spelling_eq_parts hformed hbare hlayout htoken, parts_of_fields h hformed,
    List.filterMap_eq_flatMap_toList, List.flatMap_assoc]
  rfl

end Tree

/-! ## What is put in a position -/

/-- Whatever the tree lowers to spells what the tree spells. -/
structure Spelled (t : Tree) : Prop where
  part : ∀ pos n, pos.admits t.kind = true → lowerAt .noTypes pos t = .ok n →
    n.spelling = t.spelling
  statement : ∀ ns, lowerStatement .noTypes t = .ok ns →
    ns.flatMap Node.spelling = t.spelling
  arguments : t.kind = .arguments → ∀ ns, ListForm .noTypes t .element Tree.isOperand ns →
    ns.flatMap Node.spelling = t.spelling

theorem flatMap_spelling {pos : Position} {ts : List Tree} {ns : List Node}
    (h : List.Forall₂ (fun c n => lowerAt .noTypes pos c = .ok n) ts ns)
    (hts : ∀ c ∈ ts, Spelled c ∧ pos.admits c.kind = true) :
    ns.flatMap Node.spelling = ts.flatMap Tree.spelling := by
  induction h with
  | nil => rfl
  | @cons c n cs ns hn _ ih =>
    rw [List.forall_mem_cons] at hts
    rw [List.flatMap_cons, List.flatMap_cons, hts.1.1.part pos n hts.1.2 hn, ih hts.2]

theorem optional_spelling {pos : Position} {c? : Option Tree} {n? : Option Node}
    (h : Option.Rel (fun c n => lowerAt .noTypes pos c = .ok n) c? n?)
    (hc : ∀ c, c? = some c → Spelled c ∧ pos.admits c.kind = true) :
    n?.toList.flatMap Node.spelling = c?.toList.flatMap Tree.spelling := by
  cases h with
  | none => rfl
  | @some c n hn =>
    obtain ⟨hspelled, hadmits⟩ := hc c rfl
    have hpart := hspelled.part pos n hadmits hn
    simp [hpart]

section Parts

variable {t : Tree} (hformed : t.Formed) (hparts : ∀ c ∈ t.parts, Spelled c)

include hformed hparts

theorem FieldForm.spelling {pos : Position} {name : String} {n : Node}
    (h : FieldForm .noTypes t pos name n) (hslot : t.slot? name = some ⟨name, pos.admits⟩) :
    n.spelling = t.spellingAt name := by
  obtain ⟨c, hc, hn⟩ := h
  obtain ⟨hpart, hadmits⟩ := Tree.part_of_slot hslot hformed hc
  rw [Tree.spellingAt, hc, (hparts c hpart).part pos n hadmits hn]
  exact (List.flatMap_singleton ..).symm

theorem OptionalForm.spelling {pos : Position} {name : String} {n? : Option Node}
    (h : OptionalForm .noTypes t pos name n?) (hslot : t.slot? name = some ⟨name, pos.admits⟩) :
    n?.toList.flatMap Node.spelling = t.spellingAt name := by
  refine optional_spelling h fun c hc => ?_
  obtain ⟨hpart, hadmits⟩ := Tree.part_of_slot hslot hformed hc
  exact ⟨hparts c hpart, hadmits⟩

variable (hbare : t.Bare)

include hbare

theorem OperandForm.spelling {pos : Position} {n : Node} (h : OperandForm .noTypes t pos n)
    (hlayout : t.layout? = some .first) (htoken : t.kind.isToken = false)
    (hpos : ∀ k : Tree.Kind, k.standsAlone = true → pos.admits k = true) :
    n.spelling = t.spelling := by
  obtain ⟨c, hc, hn⟩ := h
  have hsingle : t.parts = [c] := by rw [Tree.parts, hlayout, hc]; rfl
  have hkeeps := hformed.layout
  rw [hlayout] at hkeeps
  have hpart : c ∈ t.parts := hsingle ▸ List.mem_singleton_self c
  rw [Tree.spelling_eq_parts hformed hbare hlayout htoken, hsingle, List.flatMap_singleton]
  exact (hparts c hpart).part pos n (hpos c.kind (hkeeps c hpart)) hn

theorem ListForm.spelling {pos : Position} {ns : List Node}
    (h : ListForm .noTypes t pos Tree.isOperand ns) (hlayout : t.layout? = some (.row pos.admits))
    (htoken : t.kind.isToken = false) : ns.flatMap Node.spelling = t.spelling := by
  have hrow : t.parts = t.namedChildren := by rw [Tree.parts, hlayout]
  have hkeeps := hformed.layout
  rw [hlayout] at hkeeps
  rw [Tree.spelling_eq_parts hformed hbare hlayout htoken, hrow]
  refine flatMap_spelling h fun c hc => ?_
  have hpart : c ∈ t.parts := hrow ▸ hc
  exact ⟨hparts c hpart, hkeeps c hpart⟩

theorem StatementsForm.spelling {ns : List Node} (h : StatementsForm .noTypes t ns)
    (hkind : t.kind = .statementBlock) : ns.flatMap Node.spelling = t.spelling := by
  obtain ⟨nss, hnss, rfl⟩ := h
  have hlayout : t.layout? = some (.row Tree.Kind.standsAlone) := by rw [Tree.layout?, hkind]
  have hrow : t.parts = t.namedChildren := by rw [Tree.parts, hlayout]
  rw [Tree.spelling_eq_parts hformed hbare hlayout (by rw [hkind]; rfl), hrow]
  rw [hrow] at hparts
  generalize t.namedChildren = cs at hnss hparts ⊢
  induction hnss with
  | nil => rfl
  | @cons c ns cs nss hns _ ih =>
    rw [List.forall_mem_cons] at hparts
    rw [List.flatten_cons, List.flatMap_append, List.flatMap_cons, hparts.1.statement ns hns,
      ih hparts.2]

end Parts

/-! ## Parameters -/

theorem Tree.tokens_of_text {t : Tree} (h : t.kind.isToken = true)
    (halone : t.kind.standsAlone = true) : t.tokens = [t.text] := by
  obtain ⟨info, children⟩ := t
  unfold tokens
  split
  · next hk => rw [kind, Tree.info, hk] at halone; cases halone
  · exact if_pos h

theorem Tree.tokens_of_shorthand {t : Tree} (h : t.kind = .shorthandPropertyIdentifier) :
    t.tokens = [t.text, t.text] := by
  obtain ⟨info, children⟩ := t
  unfold tokens
  split
  · rfl
  · next hk => exact absurd h hk

theorem patternName_tokens {pattern : Tree} {name : String} (hformed : pattern.Formed)
    (hbare : pattern.Bare) (h : Function.patternName pattern = .ok name) :
    pattern.tokens = [name] := by
  unfold Function.patternName at h
  split at h
  case h_1 hkind =>
    rw [← Except.ok.inj h]
    exact Tree.tokens_of_text (by rw [hkind]; rfl) (by rw [hkind]; rfl)
  case h_2 hkind =>
    split at h
    · next operand hoperand =>
      split at h
      · next hidentifier =>
        rw [← Except.ok.inj h]
        have hlayout : pattern.layout? = some .first := by rw [Tree.layout?, hkind]
        have hparts : pattern.parts = [operand] := by rw [Tree.parts, hlayout, hoperand]; rfl
        rw [Tree.tokens_eq_parts hformed hbare hlayout (by rw [hkind]; rfl), hparts,
          List.flatMap_singleton]
        exact Tree.tokens_of_text (by rw [hidentifier]; rfl) (by rw [hidentifier]; rfl)
      · cases h
    · cases h
  all_goals cases h

/-- A grammatical tree that is bare throughout. -/
structure Tree.Simple (t : Tree) : Prop where
  grammatical : t.Grammatical
  bare : ∀ d, t.Includes d → d.Bare

namespace Tree.Simple

variable {t c : Tree}

theorem formed (h : t.Simple) : t.Formed := h.grammatical.here

theorem bare_here (h : t.Simple) : t.Bare := h.bare t (.self t)

theorem part (h : t.Simple) (hc : c ∈ t.parts) : c.Simple :=
  ⟨h.grammatical.part hc, fun d hd => h.bare d (.part hc hd)⟩

end Tree.Simple

theorem parameterName_tokens {parameter : Tree} {name : String} (hsimple : parameter.Simple)
    (h : Function.parameterName parameter = .ok name) : parameter.tokens = [name] := by
  unfold Function.parameterName at h
  have hpattern (hfields : parameter.fields? = some ["pattern"])
      (hslot : parameter.slot? "pattern" = some (.any "pattern"))
      (htoken : parameter.kind.isToken = false)
      (h : Lowering.required parameter.info
        ((parameter.childByField? "pattern").map Function.patternName) = .ok name) :
      parameter.tokens = [name] := by
    obtain ⟨pattern, hpattern, hname⟩ := required_map_eq_ok.mp h
    have hpart := (Tree.part_of_slot hslot hsimple.formed hpattern).1
    have hsimplePattern := hsimple.part hpart
    obtain ⟨slots, hlayout, -⟩ := Tree.layout_of_fields hfields
    rw [Tree.tokens_eq_parts hsimple.formed hsimple.bare_here hlayout htoken,
      Tree.parts_of_fields hfields hsimple.formed]
    simp [hpattern, patternName_tokens hsimplePattern.formed hsimplePattern.bare_here hname]
  split at h
  case h_1 hkind =>
    refine hpattern ?_ ?_ (by rw [hkind]; rfl) h
    · rw [Tree.fields?, Tree.layout?, hkind]; rfl
    · rw [Tree.slot?, Tree.layout?, hkind]; rfl
  case h_2 hkind =>
    refine hpattern ?_ ?_ (by rw [hkind]; rfl) h
    · rw [Tree.fields?, Tree.layout?, hkind]; rfl
    · rw [Tree.slot?, Tree.layout?, hkind]; rfl
  case h_3 => exact patternName_tokens hsimple.formed hsimple.bare_here h

theorem parameterList_tokens {list : Tree} {names : List String} (hsimple : list.Simple)
    (hkind : list.kind = .formalParameters)
    (h : gather (list.namedChildren.map Function.parameterName) = .ok names) :
    list.tokens = names := by
  have hlayout : list.layout? = some (.row Tree.Kind.standsAlone) := by rw [Tree.layout?, hkind]
  have hparts : list.parts = list.namedChildren := by rw [Tree.parts, hlayout]
  rw [Tree.tokens_eq_parts hsimple.formed hsimple.bare_here hlayout (by rw [hkind]; rfl), hparts]
  have heach : ∀ c ∈ list.namedChildren, c.Simple := fun c hc => hsimple.part (hparts ▸ hc)
  rw [gather_map_eq_ok] at h
  generalize list.namedChildren = cs at h heach
  induction h with
  | nil => rfl
  | @cons c name cs names hname _ ih =>
    rw [List.forall_mem_cons] at heach
    rw [List.flatMap_cons, parameterName_tokens heach.1 hname, ih heach.2]
    rfl

namespace Tree

variable {t : Tree}

/-- No child of a bare node is in a field that its layout lacks, operators and keywords
aside. -/
theorem childByField?_eq_none {fields : List String} {name : String} (hsimple : t.Simple)
    (hfields : t.fields? = some fields)
    (hname : name ∉ "operator" :: "kind" :: fields) : t.childByField? name = none := by
  refine hsimple.formed.childByField?_eq_none hfields hname fun c hc => ?_
  rw [inField, hsimple.bare_here.field_of_aside hc]
  rfl

theorem spellingAt_eq_nil {name : String} (h : t.childByField? name = none) :
    t.spellingAt name = [] := by
  rw [spellingAt, h]
  rfl

theorem spelling_function (hsimple : t.Simple)
    (hkind : t.kind = .arrowFunction ∨ t.kind = .functionExpression ∨
      t.kind = .functionDeclaration) :
    t.spelling = t.spellingAt "name" ++ (t.spellingAt "parameter" ++
      (t.spellingAt "parameters" ++ t.spellingAt "body")) := by
  have htoken : t.kind.isToken = false := by
    rcases hkind with hkind | hkind | hkind <;> rw [hkind] <;> rfl
  have hempty {fields : List String} (name : String) (hfields : t.fields? = some fields)
      (hname : name ∉ "operator" :: "kind" :: fields) : t.spellingAt name = [] :=
    spellingAt_eq_nil (childByField?_eq_none hsimple hfields hname)
  have hspelling {fields : List String} (hfields : t.fields? = some fields) :=
    spelling_of_fields hfields hsimple.formed hsimple.bare_here htoken
  rcases hkind with hkind | hkind
  · have hfields := fields_of_arrow hkind
    cases hparameter : (t.childByField? "parameter").isSome with
    | true =>
      rw [hparameter, if_pos rfl] at hfields
      rw [hspelling hfields, hempty "name" hfields (by decide),
        hempty "parameters" hfields (by decide)]
      simp
    | false =>
      rw [hparameter, if_neg Bool.false_ne_true] at hfields
      rw [hspelling hfields, hempty "name" hfields (by decide),
        hempty "parameter" hfields (by decide)]
      simp
  · have hfields : t.fields? = some ["name", "parameters", "body"] := by
      rcases hkind with hkind | hkind <;> rw [fields?, layout?, hkind] <;> rfl
    rw [hspelling hfields, hempty "parameter" hfields (by decide)]
    simp

end Tree

theorem parameterNames_spelling {t : Tree} {names : List String} (hsimple : t.Simple)
    (hkind : t.kind = .arrowFunction ∨ t.kind = .functionExpression ∨
      t.kind = .functionDeclaration) (h : Function.parameterNames t = .ok names) :
    spelled names = t.spellingAt "parameter" ++ t.spellingAt "parameters" := by
  unfold Function.parameterNames at h
  split at h
  case h_1 parameter hparameter =>
    rcases hkind with hkind | hkind
    · have hslot : t.slot? "parameter" = some (.only "parameter" .identifier) := by
        simp only [Tree.slot?, Tree.layout?, hkind, hparameter, Option.isSome_some, if_true]
        rfl
      have hfields := Tree.fields_of_arrow hkind
      rw [hparameter, Option.isSome_some, if_pos rfl] at hfields
      have hnone : t.childByField? "parameters" = none :=
        Tree.childByField?_eq_none hsimple hfields (by decide)
      have hidentifier : parameter.kind = .identifier :=
        beq_iff_eq.mp (Tree.part_of_slot hslot hsimple.formed hparameter).2
      have htokens : parameter.tokens = [parameter.text] :=
        Tree.tokens_of_text (by rw [hidentifier]; rfl) (by rw [hidentifier]; rfl)
      rw [Tree.spellingAt_eq_nil hnone, List.append_nil, Tree.spellingAt, hparameter,
        ← Except.ok.inj h, ← htokens]
      exact (List.flatMap_singleton ..).symm
    · have hfields : t.fields? = some ["name", "parameters", "body"] := by
        rcases hkind with hkind | hkind <;> rw [Tree.fields?, Tree.layout?, hkind] <;> rfl
      rw [Tree.childByField?_eq_none hsimple hfields (by decide)] at hparameter
      cases hparameter
  case h_2 hparameter =>
    rw [Tree.spellingAt_eq_nil hparameter, List.nil_append]
    split at h
    · next list hlist =>
      have hslot : t.slot? "parameters" = some (.only "parameters" .formalParameters) := by
        rcases hkind with hkind | hkind | hkind
        · simp only [Tree.slot?, Tree.layout?, hkind, hparameter, Option.isSome_none,
            Bool.false_eq_true, if_false]
          rfl
        · rw [Tree.slot?, Tree.layout?, hkind]
          rfl
        · rw [Tree.slot?, Tree.layout?, hkind]
          rfl
      obtain ⟨hpart, hadmits⟩ := Tree.part_of_slot hslot hsimple.formed hlist
      have htokens := parameterList_tokens (hsimple.part hpart) (beq_iff_eq.mp hadmits) h
      rw [Tree.spellingAt, hlist, ← htokens]
      exact (List.flatMap_singleton ..).symm
    · next hlist =>
      rw [Tree.spellingAt_eq_nil hlist, ← Except.ok.inj h]
      rfl

/-! ## Forms -/

theorem parameterDecls_spelling (names : List String) :
    (names.map Node.parameterDecl).flatMap Node.spelling = spelled names := by
  induction names with
  | nil => rfl
  | cons name names ih =>
    have hname : (Node.parameterDecl name).spelling = spelled [name] := by
      rw [Node.spelling_eq rfl, Node.children, List.flatMap_nil, List.append_nil]
      rfl
    rw [List.map_cons, List.flatMap_cons, hname, ih, ← spelled_append, List.singleton_append]

theorem build_spelling (flavor : FunctionFlavor) (names : List String) (b : Node) :
    (flavor.build (names.map .parameterDecl) b).spelling = spelled names ++ b.spelling := by
  cases flavor <;>
    rw [FunctionFlavor.build, Node.spelling_eq rfl, Node.children, List.flatMap_append,
      parameterDecls_spelling, List.flatMap_singleton] <;>
    rfl

theorem FunctionForm.body_spelling {t : Tree} {names : List String} {b : Node}
    (h : FunctionForm .noTypes t names b) (hsimple : t.Simple)
    (hparts : ∀ c ∈ t.parts, Spelled c) : b.spelling = t.spellingAt "body" := by
  exact h.body.spelling hsimple.formed hparts (Tree.slot_body_of_function h.kind)

theorem FunctionForm.spelling {t : Tree} {names : List String} {b : Node}
    (h : FunctionForm .noTypes t names b) (hsimple : t.Simple)
    (hparts : ∀ c ∈ t.parts, Spelled c) :
    t.spelling = t.spellingAt "name" ++ (spelled names ++ b.spelling) := by
  rw [Tree.spelling_function hsimple h.kind, parameterNames_spelling hsimple h.kind h.parameters,
    h.body_spelling hsimple hparts, List.append_assoc]

/-- What an expression spells, which for a shorthand property is its name once. -/
def exprSpelling (t : Tree) : List String :=
  if t.kind = .shorthandPropertyIdentifier then spelled [t.text] else t.spelling

theorem exprSpelling_of_not_token {t : Tree} (h : t.kind.isToken = false) :
    exprSpelling t = t.spelling := by
  rw [exprSpelling, if_neg]
  intro hkind
  rw [hkind] at h
  cases h

theorem exprSpelling_of_token {t : Tree} (h : t.kind.isToken = true) :
    exprSpelling t = spelled [t.text] := by
  by_cases hkind : t.kind = .shorthandPropertyIdentifier
  · rw [exprSpelling, if_pos hkind]
  · rw [exprSpelling, if_neg hkind, Tree.spelling,
      Tree.tokens_of_text h (by simp [Tree.Kind.standsAlone, hkind])]

theorem exprSpelling_of_fields {t : Tree} {fields : List String} (hsimple : t.Simple)
    (h : t.fields? = some fields) (htoken : t.kind.isToken = false) :
    exprSpelling t = fields.flatMap t.spellingAt := by
  rw [exprSpelling_of_not_token htoken,
    Tree.spelling_of_fields h hsimple.formed hsimple.bare_here htoken]

theorem isToken_of_isName {k : Tree.Kind} (h : k.isName = true) : k.isToken = true := by
  unfold Tree.Kind.isName at h
  split at h
  case h_3 => cases h
  all_goals rfl

theorem literalOf?_spelling {t : Tree} {n : Node} (hsimple : t.Simple)
    (h : literalOf? t.info = some n) : n.spelling = exprSpelling t := by
  have hleaf (hfields : t.fields? = some []) (htoken : t.kind.isToken = false) :
      exprSpelling t = [] := by
    rw [exprSpelling_of_fields hsimple hfields htoken, List.flatMap_nil]
  have hraw (htoken : t.kind.isToken = true) : exprSpelling t = spelled [t.text] :=
    exprSpelling_of_token htoken
  unfold literalOf? at h
  split at h
  case h_5 hk =>
    obtain rfl := Option.some.inj h
    rw [hraw (by rw [Tree.kind, hk]; rfl)]
    rfl
  case h_6 hk =>
    obtain rfl := Option.some.inj h
    rw [hraw (by rw [Tree.kind, hk]; rfl)]
    rfl
  case h_7 => cases h
  all_goals
    next hk =>
      obtain rfl := Option.some.inj h
      have hfields : t.fields? = some [] := by rw [Tree.fields?, Tree.layout?, Tree.kind, hk]; rfl
      rw [hleaf hfields (by rw [Tree.kind, hk]; rfl)]
      rfl

theorem spellingAt_of_token {t c : Tree} {name : String} (hc : t.childByField? name = some c)
    (htoken : c.kind.isToken = true) (halone : c.kind.standsAlone = true) :
    t.spellingAt name = spelled [c.text] := by
  rw [Tree.spellingAt, hc, Option.toList_some, List.flatMap_singleton, Tree.spelling,
    Tree.tokens_of_text htoken halone]

theorem childByField?_optional_chain {t : Tree} (h : isOptionalChain t = false) :
    t.childByField? "optional_chain" = none := by
  rw [isOptionalChain, Bool.or_eq_false_iff, Bool.or_eq_false_iff] at h
  exact Option.isSome_eq_false_iff.mp h.1.1 |> Option.isNone_iff_eq_none.mp

/-- Without types all arguments of an invocation are bound, in order. -/
theorem bindArguments_spelling {t list : Tree} {ns : List Node}
    (hlist : t.childByField? "arguments" = some list) (hkind : list.kind = .arguments)
    (hinvocation : t.isInvocation = true) (hspelled : Spelled list)
    (h : bindArguments .noTypes t = .ok ns) :
    ns.flatMap Node.spelling = t.spellingAt "arguments" := by
  have hcall : t.callArguments = list.namedChildren := by
    rw [Tree.callArguments, Tree.argumentList?, if_pos hinvocation, hlist]
    simp only [hkind, if_true]
  have hunsigned : Arguments.usableSignature .noTypes t = .ok none := by
    unfold Arguments.usableSignature
    cases t.callee? <;> rfl
  cases bindArguments_form h with
  | bound signature _ =>
    rw [hunsigned] at signature
    cases signature
  | @positional s? ns signature free lowered =>
    rw [hcall] at lowered
    have hvalues := hspelled.arguments hkind ns lowered
    have hargument (n : Node) : (Node.argument (some n) none).spelling = n.spelling := by
      rw [Node.spelling_eq rfl]
      exact List.flatMap_singleton ..
    rw [List.flatMap_map, Tree.spellingAt, hlist, Option.toList_some, List.flatMap_singleton,
      ← hvalues]
    simp only [hargument]

theorem ExprForm.spelling {t : Tree} {n : Node} (h : ExprForm .noTypes t n) (hsimple : t.Simple)
    (hparts : ∀ c ∈ t.parts, Spelled c) : n.spelling = exprSpelling t := by
  have hformed := hsimple.formed
  have hbare := hsimple.bare_here
  cases h with
  | undefinedName kind text =>
    rw [exprSpelling_of_token (isToken_of_isName kind), text]
    rfl
  | name kind text untyped =>
    rw [exprSpelling_of_token (isToken_of_isName kind)]
    rfl
  | nameReference kind text reference => cases reference
  | literal found => exact literalOf?_spelling hsimple found
  | template kind assembled =>
    obtain ⟨ps, rfl, hholes⟩ := assemble_template_form assembled
    have hlayout : t.layout? = some .holes := by rw [Tree.layout?, kind]
    have hsubstitutions : t.children.filter isSubstitution = t.parts := by
      rw [Tree.parts, hlayout]
      rfl
    have htoken : t.kind.isToken = false := by rw [kind]; rfl
    rw [exprSpelling_of_not_token htoken, Tree.spelling_eq_parts hformed hbare hlayout htoken,
      Node.spelling_eq rfl]
    rw [hsubstitutions] at hholes
    refine flatMap_spelling hholes fun c hc => ⟨hparts c hc, ?_⟩
    rw [← hsubstitutions] at hc
    exact (List.mem_filter.mp hc).2
  | wrapper kind operand =>
    have hlayout : t.layout? = some .first := by
      unfold Tree.Kind.isWrapper at kind
      split at kind
      case h_5 => cases kind
      all_goals next hk => rw [Tree.layout?, hk]
    have htoken : t.kind.isToken = false := by
      unfold Tree.Kind.isWrapper at kind
      split at kind
      case h_5 => cases kind
      all_goals next hk => rw [hk]; rfl
    rw [exprSpelling_of_not_token htoken]
    exact operand.spelling hformed hparts hbare hlayout htoken fun _ h => h
  | @assertion c n kind operand lowered =>
    have hlayout : t.layout? = some .last := by rw [Tree.layout?, kind]
    have hsingle : t.parts = [c] := by rw [Tree.parts, hlayout, operand]; rfl
    have hpart : c ∈ t.parts := hsingle ▸ List.mem_singleton_self c
    have hkeeps := hformed.layout
    rw [hlayout] at hkeeps
    have htoken : t.kind.isToken = false := by rw [kind]; rfl
    rw [exprSpelling_of_not_token htoken, Tree.spelling_eq_parts hformed hbare hlayout htoken,
      hsingle, List.flatMap_singleton]
    exact (hparts c hpart).part .value n (hkeeps c hpart) lowered
  | accessReference kind plain reference => cases reference
  | @member n p kind plain untyped object property =>
    have hfields : t.fields? = some ["object", "optional_chain", "property"] := by
      rw [Tree.fields?, Tree.layout?, kind]; rfl
    have hobject := object.spelling hformed hparts (by rw [Tree.slot?, Tree.layout?, kind]; rfl)
    have hslot : t.slot? "property" = some (.only "property" .propertyIdentifier) := by
      rw [Tree.slot?, Tree.layout?, kind]; rfl
    have hname : p.kind = .propertyIdentifier :=
      beq_iff_eq.mp (Tree.part_of_slot hslot hformed property).2
    have hproperty : t.spellingAt "property" = spelled [p.text] :=
      spellingAt_of_token property (by rw [hname]; rfl) (by rw [hname]; rfl)
    have hchain := Tree.spellingAt_eq_nil (childByField?_optional_chain plain)
    rw [exprSpelling_of_fields hsimple hfields (by rw [kind]; rfl), Node.spelling_propAccess]
    simp [hobject, hchain, hproperty]
  | subscript kind plain untyped object index =>
    have hfields : t.fields? = some ["object", "optional_chain", "index"] := by
      rw [Tree.fields?, Tree.layout?, kind]; rfl
    have hobject := object.spelling hformed hparts (by rw [Tree.slot?, Tree.layout?, kind]; rfl)
    have hindex := index.spelling hformed hparts (by rw [Tree.slot?, Tree.layout?, kind]; rfl)
    have hchain := Tree.spellingAt_eq_nil (childByField?_optional_chain plain)
    rw [exprSpelling_of_fields hsimple hfields (by rw [kind]; rfl), Node.spelling_eq rfl]
    simp [Node.payload?, Node.children, hobject, hchain, hindex]
  | call kind plain untagged callee bound =>
    have hfields : t.fields? = some ["function", "arguments"] := by
      rw [Tree.fields?, Tree.layout?, kind]; rfl
    have hcallee := callee.spelling hformed hparts (by rw [Tree.slot?, Tree.layout?, kind]; rfl)
    obtain ⟨list, hlist, hkind⟩ := rejectTaggedTemplate_eq_ok.mp untagged
    have hslot : t.slot? "arguments" = some (.any "arguments") := by
      rw [Tree.slot?, Tree.layout?, kind]; rfl
    have hpart := (Tree.part_of_slot hslot hformed hlist).1
    have harguments := bindArguments_spelling hlist hkind (by rw [Tree.isInvocation, kind])
      (hparts list hpart) bound
    rw [exprSpelling_of_fields hsimple hfields (by rw [kind]; rfl), Node.spelling_eq rfl]
    simp [Node.payload?, Node.children, hcallee, harguments]
  | new kind list bound callee =>
    have hfields : t.fields? = some ["constructor", "arguments"] := by
      rw [Tree.fields?, Tree.layout?, kind]; rfl
    have hcallee := callee.spelling hformed hparts (by rw [Tree.slot?, Tree.layout?, kind]; rfl)
    obtain ⟨list, hlist⟩ := Option.isSome_iff_exists.mp list
    have hslot : t.slot? "arguments" = some (.only "arguments" .arguments) := by
      rw [Tree.slot?, Tree.layout?, kind]; rfl
    obtain ⟨hpart, hadmits⟩ := Tree.part_of_slot hslot hformed hlist
    have harguments := bindArguments_spelling hlist (beq_iff_eq.mp hadmits)
      (by rw [Tree.isInvocation, kind]) (hparts list hpart) bound
    rw [exprSpelling_of_fields hsimple hfields (by rw [kind]; rfl), Node.spelling_eq rfl]
    simp [Node.payload?, Node.children, hcallee, harguments]
  | newBare kind list callee =>
    have hfields : t.fields? = some ["constructor", "arguments"] := by
      rw [Tree.fields?, Tree.layout?, kind]; rfl
    have hcallee := callee.spelling hformed hparts (by rw [Tree.slot?, Tree.layout?, kind]; rfl)
    rw [exprSpelling_of_fields hsimple hfields (by rw [kind]; rfl), Node.spelling_eq rfl]
    simp [Node.payload?, Node.children, hcallee, Tree.spellingAt_eq_nil list]
  | binary kind operator known left right =>
    have hfields : t.fields? = some ["left", "right"] := by
      rw [Tree.fields?, Tree.layout?, kind]; rfl
    have hleft := left.spelling hformed hparts (by rw [Tree.slot?, Tree.layout?, kind]; rfl)
    have hright := right.spelling hformed hparts (by rw [Tree.slot?, Tree.layout?, kind]; rfl)
    rw [exprSpelling_of_fields hsimple hfields (by rw [kind]; rfl), Node.spelling_eq rfl]
    simp [Node.payload?, Node.children, hleft, hright]
  | assignment kind left right =>
    have hfields : t.fields? = some ["left", "right"] := by
      rw [Tree.fields?, Tree.layout?, kind]; rfl
    have hleft := left.spelling hformed hparts (by rw [Tree.slot?, Tree.layout?, kind]; rfl)
    have hright := right.spelling hformed hparts (by rw [Tree.slot?, Tree.layout?, kind]; rfl)
    rw [exprSpelling_of_fields hsimple hfields (by rw [kind]; rfl), Node.spelling_eq rfl]
    simp [Node.payload?, Node.children, hleft, hright]
  | typeof kind operator text operand =>
    have hfields : t.fields? = some ["argument"] := by
      rw [Tree.fields?, Tree.layout?, kind]; rfl
    have hoperand := operand.spelling hformed hparts (by rw [Tree.slot?, Tree.layout?, kind]; rfl)
    rw [exprSpelling_of_fields hsimple hfields (by rw [kind]; rfl), Node.spelling_eq rfl]
    simp [Node.payload?, Node.children, hoperand]
  | unary kind operator text known operand =>
    have hfields : t.fields? = some ["argument"] := by
      rw [Tree.fields?, Tree.layout?, kind]; rfl
    have hoperand := operand.spelling hformed hparts (by rw [Tree.slot?, Tree.layout?, kind]; rfl)
    rw [exprSpelling_of_fields hsimple hfields (by rw [kind]; rfl), Node.spelling_eq rfl]
    simp [Node.payload?, Node.children, hoperand]
  | ternary kind condition thenValue elseValue =>
    have hfields : t.fields? = some ["condition", "consequence", "alternative"] := by
      rw [Tree.fields?, Tree.layout?, kind]; rfl
    have hcondition :=
      condition.spelling hformed hparts (by rw [Tree.slot?, Tree.layout?, kind]; rfl)
    have hthen := thenValue.spelling hformed hparts (by rw [Tree.slot?, Tree.layout?, kind]; rfl)
    have helse := elseValue.spelling hformed hparts (by rw [Tree.slot?, Tree.layout?, kind]; rfl)
    rw [exprSpelling_of_fields hsimple hfields (by rw [kind]; rfl), Node.spelling_eq rfl]
    simp [Node.payload?, Node.children, hcondition, hthen, helse]
  | array kind items =>
    have htoken : t.kind.isToken = false := by rw [kind]; rfl
    rw [exprSpelling_of_not_token htoken, Node.spelling_eq rfl]
    exact items.spelling hformed hparts hbare (by rw [Tree.layout?, kind]; rfl) htoken
  | object kind properties =>
    have htoken : t.kind.isToken = false := by rw [kind]; rfl
    rw [exprSpelling_of_not_token htoken, Node.spelling_eq rfl]
    exact properties.spelling hformed hparts hbare (by rw [Tree.layout?, kind]; rfl) htoken
  | @function names b kind function =>
    have hname : t.spellingAt "name" = [] := by
      refine Tree.spellingAt_eq_nil ?_
      rcases kind with kind | kind
      · refine Tree.childByField?_eq_none hsimple (Tree.fields_of_arrow kind) ?_
        split <;> decide
      · exact hbare.unnamed kind
    have htoken : t.kind.isToken = false := by rcases kind with kind | kind <;> rw [kind] <;> rfl
    rw [exprSpelling_of_not_token htoken, function.spelling hsimple hparts, hname,
      List.nil_append]
    exact build_spelling .expression names b

theorem loopVariable_spelling (t : Tree) (name : String) :
    (loopVariable t name).spelling = spelled [name] := by
  unfold loopVariable
  split <;> rw [Node.spelling_eq rfl, Node.children] <;> exact List.append_nil _

theorem single_spelling (ns : List Node) : (single ns).spelling = ns.flatMap Node.spelling := by
  unfold single
  split
  · rw [List.flatMap_singleton]
  · exact Node.spelling_eq rfl

theorem forIn_spelling {t left : Tree} {n b : Node} (hformed : t.Formed)
    (hparts : ∀ c ∈ t.parts, Spelled c) (kind : t.kind = .forInStatement)
    (target : t.childByField? "left" = some left) (name : left.kind = .identifier)
    (right : FieldForm .noTypes t .value "right" n)
    (body : FieldForm .noTypes t .loopBody "body" b) :
    (loopVariable t left.text).spelling = t.spellingAt "left" ∧
      n.spelling = t.spellingAt "right" ∧ b.spelling = t.spellingAt "body" := by
  refine ⟨?_, ?_, ?_⟩
  · rw [loopVariable_spelling,
      spellingAt_of_token target (by rw [name]; rfl) (by rw [name]; rfl)]
  · exact right.spelling hformed hparts (by rw [Tree.slot?, Tree.layout?, kind]; rfl)
  · exact body.spelling hformed hparts (by rw [Tree.slot?, Tree.layout?, kind]; rfl)

theorem StatementForm.spelling {t : Tree} {ns : List Node} (h : StatementForm .noTypes t ns)
    (hsimple : t.Simple) (hparts : ∀ c ∈ t.parts, Spelled c) :
    ns.flatMap Node.spelling = t.spelling := by
  have hformed := hsimple.formed
  have hbare := hsimple.bare_here
  cases h with
  | expression kind operand =>
    have hoperand := operand.spelling hformed hparts hbare (by rw [Tree.layout?, kind])
      (by rw [kind]; rfl) fun _ h => h
    rw [List.flatMap_singleton, Node.spelling_eq rfl, ← hoperand]
    exact List.flatMap_singleton ..
  | block kind statements =>
    rw [List.flatMap_singleton, Node.spelling_eq rfl]
    exact statements.spelling hformed hparts hbare kind
  | declaration kind declarators =>
    have hlayout : t.layout? = some (.row Position.declarator.admits) := by
      rcases kind with kind | kind <;> rw [Tree.layout?, kind] <;> rfl
    rw [ListForm, Tree.filter_isDeclarator hformed hlayout] at declarators
    exact ListForm.spelling hformed hparts hbare declarators hlayout
      (by rcases kind with kind | kind <;> rw [kind] <;> rfl)
  | empty kind =>
    have hfields : t.fields? = some [] := by rw [Tree.fields?, Tree.layout?, kind]; rfl
    rw [Tree.spelling_of_fields hfields hformed hbare (by rw [kind]; rfl)]
    rfl
  | @«return» n? kind operand =>
    have hlayout : t.layout? = some .first := by rw [Tree.layout?, kind]
    have hkeeps := hformed.layout
    rw [hlayout] at hkeeps
    have hoperand : ∀ c, t.firstNamedChild? = some c →
        Spelled c ∧ Position.value.admits c.kind = true := by
      intro c hc
      have hpart : c ∈ t.parts := by
        rw [Tree.parts, hlayout, hc]
        exact List.mem_cons_self
      exact ⟨hparts c hpart, hkeeps c hpart⟩
    have hvalue := optional_spelling operand hoperand
    have hparts : t.parts = t.firstNamedChild?.toList := by rw [Tree.parts, hlayout]
    rw [Tree.spelling_eq_parts hformed hbare hlayout (by rw [kind]; rfl), hparts, ← hvalue,
      List.flatMap_singleton, Node.spelling_eq rfl]
    cases n? <;> rfl
  | «if» kind condition thenBranch elseBranch =>
    have hfields : t.fields? = some ["condition", "consequence", "alternative"] := by
      rw [Tree.fields?, Tree.layout?, kind]; rfl
    have hcondition :=
      condition.spelling hformed hparts (by rw [Tree.slot?, Tree.layout?, kind]; rfl)
    have hthen := thenBranch.spelling hformed hparts (by rw [Tree.slot?, Tree.layout?, kind]; rfl)
    have helse := elseBranch.spelling hformed hparts (by rw [Tree.slot?, Tree.layout?, kind]; rfl)
    rw [Tree.spelling_of_fields hfields hformed hbare (by rw [kind]; rfl),
      List.flatMap_singleton, Node.spelling_eq rfl]
    simp [Node.payload?, Node.children, hcondition, hthen, helse]
  | «while» kind condition body =>
    have hfields : t.fields? = some ["condition", "body"] := by
      rw [Tree.fields?, Tree.layout?, kind]; rfl
    have hcondition :=
      condition.spelling hformed hparts (by rw [Tree.slot?, Tree.layout?, kind]; rfl)
    have hbody := body.spelling hformed hparts (by rw [Tree.slot?, Tree.layout?, kind]; rfl)
    rw [Tree.spelling_of_fields hfields hformed hbare (by rw [kind]; rfl),
      List.flatMap_singleton, Node.spelling_eq rfl]
    simp [Node.payload?, Node.children, hcondition, hbody]
  | «do» kind body condition =>
    have hfields : t.fields? = some ["body", "condition"] := by
      rw [Tree.fields?, Tree.layout?, kind]; rfl
    have hbody := body.spelling hformed hparts (by rw [Tree.slot?, Tree.layout?, kind]; rfl)
    have hcondition :=
      condition.spelling hformed hparts (by rw [Tree.slot?, Tree.layout?, kind]; rfl)
    rw [Tree.spelling_of_fields hfields hformed hbare (by rw [kind]; rfl),
      List.flatMap_singleton, Node.spelling_eq rfl]
    simp [Node.payload?, Node.children, hbody, hcondition]
  | forOf kind sync target name right body token =>
    obtain ⟨htarget, hright, hbody⟩ :=
      forIn_spelling hformed hparts kind target name right body
    have hfields : t.fields? = some ["left", "right", "body"] := by
      rw [Tree.fields?, Tree.layout?, kind]; rfl
    rw [Tree.spelling_of_fields hfields hformed hbare (by rw [kind]; rfl),
      List.flatMap_singleton, Node.spelling_eq rfl]
    simp [Node.payload?, Node.children, htarget, hright, hbody]
  | forIn kind sync target name right body token =>
    obtain ⟨htarget, hright, hbody⟩ :=
      forIn_spelling hformed hparts kind target name right body
    have hfields : t.fields? = some ["left", "right", "body"] := by
      rw [Tree.fields?, Tree.layout?, kind]; rfl
    rw [Tree.spelling_of_fields hfields hformed hbare (by rw [kind]; rfl),
      List.flatMap_singleton, Node.spelling_eq rfl]
    simp [Node.payload?, Node.children, htarget, hright, hbody]
  | «break» kind label =>
    have hlayout : t.layout? = some .first := by rw [Tree.layout?, kind]
    rw [Tree.spelling_eq_parts hformed hbare hlayout (by rw [kind]; rfl), Tree.parts, hlayout,
      label]
    rfl
  | «continue» kind label =>
    have hlayout : t.layout? = some .first := by rw [Tree.layout?, kind]
    rw [Tree.spelling_eq_parts hformed hbare hlayout (by rw [kind]; rfl), Tree.parts, hlayout,
      label]
    rfl
  | «try» kind body handler finalizer =>
    have hfields : t.fields? = some ["body", "handler", "finalizer"] := by
      rw [Tree.fields?, Tree.layout?, kind]; rfl
    have hbody := body.spelling hformed hparts (by rw [Tree.slot?, Tree.layout?, kind]; rfl)
    have hhandler := handler.spelling hformed hparts (by rw [Tree.slot?, Tree.layout?, kind]; rfl)
    have hfinalizer :=
      finalizer.spelling hformed hparts (by rw [Tree.slot?, Tree.layout?, kind]; rfl)
    rw [Tree.spelling_of_fields hfields hformed hbare (by rw [kind]; rfl),
      List.flatMap_singleton, Node.spelling_eq rfl]
    simp [Node.payload?, Node.children, hbody, hhandler, hfinalizer]
  | throw kind operand =>
    have hoperand := operand.spelling hformed hparts hbare (by rw [Tree.layout?, kind])
      (by rw [kind]; rfl) fun _ h => h
    rw [List.flatMap_singleton, Node.spelling_eq rfl, ← hoperand]
    exact List.flatMap_singleton ..
  | @function name names b kind named function =>
    have hslot : t.slot? "name" = some (.only "name" .identifier) := by
      rw [Tree.slot?, Tree.layout?, kind]; rfl
    have hidentifier : name.kind = .identifier :=
      beq_iff_eq.mp (Tree.part_of_slot hslot hformed named).2
    have hname : t.spellingAt "name" = spelled [name.text] :=
      spellingAt_of_token named (by rw [hidentifier]; rfl) (by rw [hidentifier]; rfl)
    have hfunction := build_spelling .expression names b
    rw [function.spelling hsimple hparts, hname, ← hfunction, List.flatMap_singleton,
      Node.spelling_eq rfl]
    exact congrArg (spelled [name.text] ++ ·) (List.flatMap_singleton ..)

theorem plainPropertyName_spelling {t : Tree} {n : Node} (h : plainPropertyName t.info = .ok n) :
    n.spelling = t.spelling := by
  have htext (htoken : t.kind.isToken = true) (halone : t.kind.standsAlone = true) :
      t.spelling = spelled [t.text] := by
    rw [Tree.spelling, Tree.tokens_of_text htoken halone]
  unfold plainPropertyName at h
  split at h
  case h_4 => cases h
  all_goals
    next hk =>
      rw [htext (by rw [Tree.kind, hk]; rfl) (by rw [Tree.kind, hk]; rfl), ← Except.ok.inj h]
      rfl

theorem catchVariable_spelling {t : Tree} {v? : Option Node} (h : catchVariable t = .ok v?) :
    v?.toList.flatMap Node.spelling = t.spellingAt "parameter" := by
  unfold catchVariable at h
  split at h
  · next hnone =>
    obtain rfl := Except.ok.inj h
    rw [Tree.spellingAt_eq_nil hnone]
    rfl
  · next parameter hparameter =>
    split at h
    · next hidentifier =>
      obtain rfl := Except.ok.inj h
      rw [spellingAt_of_token hparameter (by rw [hidentifier]; rfl) (by rw [hidentifier]; rfl)]
      exact List.flatMap_singleton ..
    · cases h

theorem PartForm.spelling {t : Tree} {pos : Position} {n : Node} (h : PartForm .noTypes t pos n)
    (hadmits : pos.admits t.kind = true) (hsimple : t.Simple)
    (hparts : ∀ c ∈ t.parts, Spelled c)
    (hexpr : ∀ n, lowerExpr .noTypes t = .ok n → n.spelling = exprSpelling t)
    (hstatement : ∀ ns, lowerStatement .noTypes t = .ok ns →
      ns.flatMap Node.spelling = t.spelling) :
    n.spelling = t.spelling := by
  have hformed := hsimple.formed
  have hbare := hsimple.bare_here
  have halone (h : t.kind.standsAlone = true) : exprSpelling t = t.spelling := by
    rw [exprSpelling, if_neg (by simpa [Tree.Kind.standsAlone] using h)]
  cases h with
  | value expr =>
    rw [← halone hadmits]
    exact hexpr n expr
  | spread kind operand =>
    have hoperand := operand.spelling hformed hparts hbare (by rw [Tree.layout?, kind])
      (by rw [kind]; rfl) fun _ h => h
    rw [Node.spelling_eq rfl, ← hoperand]
    exact List.flatMap_singleton ..
  | element kind expr =>
    rw [← halone hadmits]
    exact hexpr n expr
  | pair kind key value =>
    have hfields : t.fields? = some ["key", "value"] := by
      rw [Tree.fields?, Tree.layout?, kind]; rfl
    have hkey := key.spelling hformed hparts (by rw [Tree.slot?, Tree.layout?, kind]; rfl)
    have hvalue := value.spelling hformed hparts (by rw [Tree.slot?, Tree.layout?, kind]; rfl)
    rw [Tree.spelling_of_fields hfields hformed hbare (by rw [kind]; rfl), Node.spelling_eq rfl]
    simp [Node.payload?, Node.children, hkey, hvalue]
  | shorthand kind expr =>
    have hvalue : exprSpelling t = spelled [t.text] := by rw [exprSpelling, if_pos kind]
    have htwice : t.spelling = spelled [t.text] ++ spelled [t.text] := by
      rw [Tree.spelling, Tree.tokens_of_shorthand kind, ← spelled_append]
      rfl
    have hname : (Node.identifier t.text).spelling = spelled [t.text] := by
      rw [Node.spelling_eq rfl, Node.children, List.flatMap_nil, List.append_nil]
      rfl
    rw [htwice, Node.spelling_eq rfl]
    simp [Node.payload?, Node.children, hname, hexpr _ expr, hvalue]
  | spreadProperty kind operand =>
    have hoperand := operand.spelling hformed hparts hbare (by rw [Tree.layout?, kind])
      (by rw [kind]; rfl) fun _ h => h
    rw [Node.spelling_eq rfl, ← hoperand]
    exact List.flatMap_singleton ..
  | computedName kind operand =>
    have hoperand := operand.spelling hformed hparts hbare (by rw [Tree.layout?, kind])
      (by rw [kind]; rfl) fun _ h => h
    rw [Node.spelling_eq rfl, ← hoperand]
    exact List.flatMap_singleton ..
  | plainName name => exact plainPropertyName_spelling name
  | substitution operand =>
    have kind : t.kind = .templateSubstitution := beq_iff_eq.mp hadmits
    exact operand.spelling hformed hparts hbare (by rw [Tree.layout?, kind]) (by rw [kind]; rfl)
      fun _ h => h
  | blockBody kind statements =>
    rw [Node.spelling_eq rfl]
    exact statements.spelling hformed hparts hbare kind
  | exprBody kind expr =>
    rw [← halone hadmits, ← hexpr _ expr, Node.spelling_eq rfl]
    simp [Node.payload?, Node.children, Node.spelling_eq (n := .returnStmt _) rfl]
  | block statements =>
    rw [Node.spelling_eq rfl]
    exact statements.spelling hformed hparts hbare (beq_iff_eq.mp hadmits)
  | blockLoop kind statements =>
    rw [Node.spelling_eq rfl]
    exact statements.spelling hformed hparts hbare kind
  | statementLoop kind statement =>
    rw [Node.spelling_eq rfl]
    exact hstatement _ statement
  | branch statement =>
    rw [single_spelling]
    exact hstatement _ statement
  | elseClause operand =>
    have kind : t.kind = .elseClause := beq_iff_eq.mp hadmits
    exact operand.spelling hformed hparts hbare (by rw [Tree.layout?, kind]) (by rw [kind]; rfl)
      fun _ h => h
  | declarator named plain value =>
    have kind : t.kind = .variableDeclarator := beq_iff_eq.mp hadmits
    have hfields : t.fields? = some ["name", "value"] := by
      rw [Tree.fields?, Tree.layout?, kind]; rfl
    have hname := spellingAt_of_token named (by rw [plain]; rfl) (by rw [plain]; rfl)
    have hvalue := value.spelling hformed hparts (by rw [Tree.slot?, Tree.layout?, kind]; rfl)
    rw [Tree.spelling_of_fields hfields hformed hbare (by rw [kind]; rfl), Node.spelling_eq rfl]
    simp [Node.payload?, Node.children, hname, hvalue]
  | catchClause target body =>
    have kind : t.kind = .catchClause := beq_iff_eq.mp hadmits
    have hfields : t.fields? = some ["parameter", "body"] := by
      rw [Tree.fields?, Tree.layout?, kind]; rfl
    have htarget := catchVariable_spelling target
    have hbody := body.spelling hformed hparts (by rw [Tree.slot?, Tree.layout?, kind]; rfl)
    rw [Tree.spelling_of_fields hfields hformed hbare (by rw [kind]; rfl), Node.spelling_eq rfl]
    simp [Node.payload?, Node.children, htarget, hbody]
  | finallyClause body =>
    have kind : t.kind = .finallyClause := beq_iff_eq.mp hadmits
    have hfields : t.fields? = some ["body"] := by
      rw [Tree.fields?, Tree.layout?, kind]; rfl
    have hbody := body.spelling hformed hparts (by rw [Tree.slot?, Tree.layout?, kind]; rfl)
    rw [Tree.spelling_of_fields hfields hformed hbare (by rw [kind]; rfl), hbody]
    simp

/-! ## All trees -/

theorem Spelled.of_parts {t : Tree} (hsimple : t.Simple) (hparts : ∀ c ∈ t.parts, Spelled c) :
    Spelled t := by
  have hexpr : ∀ n, lowerExpr .noTypes t = .ok n → n.spelling = exprSpelling t :=
    fun n hn => (lowerExpr_form hn).spelling hsimple hparts
  have hstatement : ∀ ns, lowerStatement .noTypes t = .ok ns →
      ns.flatMap Node.spelling = t.spelling :=
    fun ns hns => (lowerStatement_form hns).spelling hsimple hparts
  constructor
  case part =>
    intro pos n hadmits hn
    exact (lowerAt_form hn).spelling hadmits hsimple hparts hexpr hstatement
  case statement => exact hstatement
  case arguments =>
    intro hkind ns hns
    exact hns.spelling hsimple.formed hparts hsimple.bare_here
      (by rw [Tree.layout?, hkind]; rfl) (by rw [hkind]; rfl)

theorem Tree.Simple.spelled (t : Tree) : t.Simple → Spelled t := by
  induction t using Tree.induct with
  | node info children ih =>
    intro hsimple
    refine .of_parts hsimple fun c hc => ?_
    exact ih c (Tree.mem_of_mem_parts hc) (hsimple.part hc)

def Tree.functionTokens (t : Tree) : List String :=
  ["parameter", "parameters", "body"].flatMap fun name =>
    (t.childByField? name).toList.flatMap tokens

/-- Without types, a bare function of the grammar's shape lowers to a node whose payloads are
the tokens of its parameters and its body, each once and in the same order, but for
`undefined`. -/
theorem lowerFunction_keeps_tokens {flavor : FunctionFlavor} {t : Tree} {n : Node}
    (grammatical : t.Grammatical) (bare : ∀ d, t.Includes d → d.Bare)
    (h : lowerFunction .noTypes flavor 0 t = .ok n) :
    n.payloads.filter (· != "undefined") = t.functionTokens.filter (· != "undefined") := by
  have hsimple : t.Simple := ⟨grammatical, bare⟩
  obtain ⟨info, children⟩ := t
  obtain ⟨names, b, function, rfl⟩ := assemble_function_iff.mp h
  rw [List.drop_zero]
  generalize Tree.node info children = t at hsimple function ⊢
  have hparameters := parameterNames_spelling hsimple function.kind function.parameters
  have hbody := function.body_spelling hsimple fun c hc => (hsimple.part hc).spelled
  have htokens : spelled t.functionTokens =
      t.spellingAt "parameter" ++ (t.spellingAt "parameters" ++ t.spellingAt "body") := by
    rw [Tree.functionTokens, spelled_flatMap]
    simp only [spelled_flatMap, List.flatMap_cons, List.flatMap_nil, List.append_nil]
    rfl
  calc (flavor.build (names.map .parameterDecl) b).spelling
      = spelled names ++ b.spelling := build_spelling flavor names b
    _ = t.spellingAt "parameter" ++ (t.spellingAt "parameters" ++ t.spellingAt "body") := by
      rw [hparameters, hbody, List.append_assoc]
    _ = spelled t.functionTokens := htokens.symm

instance (t : Tree) : Decidable t.Bare :=
  decidable_of_iff ((∀ c ∈ t.asides, (c.isFragment || c.isModifier) = true) ∧
      (t.kind = .functionExpression → t.childByField? "name" = none))
    ⟨fun h => ⟨h.1, h.2⟩, fun h => ⟨h.asides, h.unnamed⟩⟩

/-- The tree of `(order) => check({ order, sum: order.sum })`. -/
def checkFunction : Tree :=
  let argument := Tree.namedNode .object none 17 42 "{ order, sum: order.sum }"
    [Tree.namedNode .shorthandPropertyIdentifier none 19 24 "order" [],
      Tree.namedNode .pair none 26 40 "sum: order.sum"
        [Tree.namedNode .propertyIdentifier (some "key") 26 29 "sum" [],
          Tree.namedNode .memberExpression (some "value") 31 40 "order.sum"
            [Tree.namedNode .identifier (some "object") 31 36 "order" [],
              Tree.namedNode .propertyIdentifier (some "property") 37 40 "sum" []]]]
  Tree.namedNode .arrowFunction none 0 43 "(order) => check({ order, sum: order.sum })"
    [Tree.namedNode .formalParameters (some "parameters") 0 7 "(order)"
        [Tree.namedNode .requiredParameter none 1 6 "order"
          [Tree.namedNode .identifier (some "pattern") 1 6 "order" []]],
      Tree.namedNode .callExpression (some "body") 11 43 "check({ order, sum: order.sum })"
        [Tree.namedNode .identifier (some "function") 11 16 "check" [],
          Tree.namedNode .arguments (some "arguments") 16 43 "({ order, sum: order.sum })" [argument]]]

theorem checkFunction_keeps_tokens :
    checkFunction.functionTokens =
        ["order", "check", "order", "order", "sum", "order", "sum"] ∧
      ∃ n, lowerFunction .noTypes .declaration 0 checkFunction = .ok n ∧
        n.payloads.filter (· != "undefined") =
          checkFunction.functionTokens.filter (· != "undefined") := by
  have hformed : checkFunction.Everywhere Tree.Formed := by decide
  have hbare : checkFunction.Everywhere Tree.Bare := by decide
  refine ⟨by decide, _, rfl, ?_⟩
  exact lowerFunction_keeps_tokens (fun d hd => hformed.includes hd)
    (fun d hd => hbare.includes hd) rfl

end Reify
