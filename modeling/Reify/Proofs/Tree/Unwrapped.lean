/-
Trees without some of their wrappers.

Parentheses, type assertions, `satisfies` and non-null assertions wrap a value and add nothing
to it.  `Unwraps t t'` says that `t'` is `t` with wrappers removed around any of its values,
at any depth, and written anew.  What the rest of the library reads of a tree stays as it was
(`Declared.typeOf_unwraps`, `Tree.accessPath?_unwraps`), provided that the wrapped index of an
element access is no literal (`BareIndex`): a literal index is only recognised when it is bare.
-/
import Reify.Proofs.Lowering.Template
import Reify.Types.Declared

namespace Reify
namespace Tree

/-! ## Wrappers and values -/

/-- What a wrapper holds: its first named child, or the last if it is a type assertion. -/
def wrapped? (t : Tree) : Option Tree :=
  match t.kind with
  | .parenthesizedExpression | .asExpression | .satisfiesExpression | .nonNullExpression =>
    t.firstNamedChild?
  | .typeAssertion => t.lastNamedChild?
  | _ => none

namespace Kind

def isExpression : Kind → Bool
  | .identifier | .numberLiteral | .stringLiteral | .templateString | .trueLiteral
  | .falseLiteral | .nullLiteral | .undefinedLiteral | .thisExpression | .superExpression
  | .regexLiteral | .callExpression | .newExpression | .arrowFunction | .functionExpression
  | .generatorFunction | .memberExpression | .subscriptExpression | .binaryExpression
  | .unaryExpression | .updateExpression | .assignmentExpression
  | .augmentedAssignmentExpression | .ternaryExpression | .parenthesizedExpression
  | .asExpression | .satisfiesExpression | .nonNullExpression | .typeAssertion | .array
  | .object | .awaitExpression | .yieldExpression | .sequenceExpression | .unknown _ => true
  | _ => false

/-- The kinds of names and literals, which are read as they are written. -/
def isWord : Kind → Bool
  | .identifier | .propertyIdentifier | .shorthandPropertyIdentifier | .numberLiteral
  | .stringLiteral => true
  | _ => false

/-- Whether what stands in a field of a node of this kind is a value.  Otherwise it is a name, an
operator, a list, a statement or a clause, or what a for-in or for-of loop assigns. -/
def takesValue (k : Kind) (field : Option String) : Bool :=
  match k with
  | .program | .statementBlock | .lexicalDeclaration | .variableDeclaration | .elseClause
  | .tryStatement | .catchClause | .finallyClause | .functionDeclaration | .functionExpression
  | .generatorFunctionDeclaration | .generatorFunction | .formalParameters | .restPattern
  | .templateString | .object => false
  | .memberExpression => field == some "object"
  | .subscriptExpression => field == some "object" || field == some "index"
  | .callExpression => field == some "function"
  | .newExpression => field == some "constructor"
  | .arrowFunction => field == some "body"
  | .ifStatement | .whileStatement | .doStatement => field == some "condition"
  | .forInStatement => field == some "right" || field == some "value"
  | .variableDeclarator | .pair | .requiredParameter | .optionalParameter => field == some "value"
  | _ => field != some "operator"

end Kind

def readFields : List String := ["name", "operator", "parameter", "property"]

/-- Whether the text of the node is read: that of a token, a name, a literal or an operator. -/
def Info.isRead (i : Info) : Bool :=
  !i.named || i.kind.isWord || readFields.any fun name => i.field == some name

/-- The same node written anew: in another place, and with another text if nobody reads it. -/
structure Info.Respelled (i i' : Info) : Prop where
  kind : i'.kind = i.kind
  named : i'.named = i.named
  forward : i'.span.start ≤ i'.span.stop ↔ i.span.start ≤ i.span.stop
  text : i.isRead = true → i'.text = i.text

instance (i i' : Info) : Decidable (i.Respelled i') :=
  decidable_of_iff (i'.kind = i.kind ∧ i'.named = i.named ∧
      (i'.span.start ≤ i'.span.stop ↔ i.span.start ≤ i.span.stop) ∧
      (i.isRead = true → i'.text = i.text))
    ⟨fun ⟨kind, named, forward, text⟩ => ⟨kind, named, forward, text⟩,
      fun h => ⟨h.kind, h.named, h.forward, h.text⟩⟩

mutual

/-- The value `t'` is `t` with wrappers removed, around it or inside. -/
inductive Unwraps : Tree → Tree → Prop
  | inside {t t' : Tree} (inside : UnwrapsInside t t') : Unwraps t t'
  | around {t c t' : Tree} (named : t.named = true) (operand : t.wrapped? = some c)
      (expression : c.kind.isExpression = true) (rest : Unwraps c t') : Unwraps t t'

/-- The node `t'` is `t` with wrappers removed inside.  A template keeps its literal text. -/
inductive UnwrapsInside : Tree → Tree → Prop
  | node {i i' : Info} {cs cs' : List Tree} (respelled : i.Respelled i')
      (cuts : i.kind = .templateString → (node i' cs').cuts = (node i cs).cuts)
      (children : UnwrapsEach i.kind cs cs') : UnwrapsInside (.node i cs) (.node i' cs')

/-- The children `cs'` of a node of this kind are `cs` with wrappers removed. -/
inductive UnwrapsEach : Kind → List Tree → List Tree → Prop
  | nil {k : Kind} : UnwrapsEach k [] []
  | value {k : Kind} {c c' : Tree} {cs cs' : List Tree} (takes : k.takesValue c.field = true)
      (field : c'.field = c.field) (head : Unwraps c c') (tail : UnwrapsEach k cs cs') :
    UnwrapsEach k (c :: cs) (c' :: cs')
  | other {k : Kind} {c c' : Tree} {cs cs' : List Tree} (field : c'.field = c.field)
      (head : UnwrapsInside c c') (tail : UnwrapsEach k cs cs') :
    UnwrapsEach k (c :: cs) (c' :: cs')

end

structure UnwrapsChild (k : Kind) (c c' : Tree) : Prop where
  field : c'.field = c.field
  unwraps : Unwraps c c'
  inside : k.takesValue c.field = false → UnwrapsInside c c'

variable {t c t' c' : Tree} {k : Kind}

theorem UnwrapsEach.forall₂ {cs cs' : List Tree} (h : UnwrapsEach k cs cs') :
    List.Forall₂ (UnwrapsChild k) cs cs' := by
  induction cs generalizing cs' with
  | nil =>
    cases h
    exact .nil
  | cons c cs ih =>
    cases h with
    | value takes field head tail =>
      exact .cons ⟨field, head, fun h => absurd takes (Bool.eq_false_iff.mp h)⟩ (ih tail)
    | other field head tail => exact .cons ⟨field, .inside head, fun _ => head⟩ (ih tail)

/-! ## Kinds -/

namespace UnwrapsInside

theorem respelled (h : UnwrapsInside t t') : t.info.Respelled t'.info := by
  cases h with
  | node respelled _ _ => exact respelled

theorem kind (h : UnwrapsInside t t') : t'.kind = t.kind := h.respelled.kind

theorem named (h : UnwrapsInside t t') : t'.named = t.named := h.respelled.named

theorem text (h : UnwrapsInside t t') (hread : t.info.isRead = true) : t'.text = t.text :=
  h.respelled.text hread

theorem cuts (h : UnwrapsInside t t') (hkind : t.kind = .templateString) : t'.cuts = t.cuts := by
  cases h with
  | node _ cuts _ => exact cuts hkind

theorem children (h : UnwrapsInside t t') :
    List.Forall₂ (UnwrapsChild t.kind) t.children t'.children := by
  cases h with
  | node _ _ children => exact children.forall₂

end UnwrapsInside

theorem isExpression_of_wrapped? (h : t.wrapped? = some c) : t.kind.isExpression = true := by
  unfold wrapped? at h
  split at h
  case h_6 => cases h
  all_goals next hkind => rw [hkind]; rfl

theorem mem_namedChildren_of_wrapped? (h : t.wrapped? = some c) : c ∈ t.namedChildren := by
  unfold wrapped? at h
  split at h
  case h_5 => exact List.mem_of_getLast? h
  case h_6 => cases h
  all_goals exact List.mem_of_head? h

theorem mem_of_wrapped? (h : t.wrapped? = some c) : c ∈ t.children :=
  mem_of_mem_namedChildren (mem_namedChildren_of_wrapped? h)

theorem named_of_wrapped? (h : t.wrapped? = some c) : c.named = true := by
  have hoperand := (List.mem_filter.mp (mem_namedChildren_of_wrapped? h)).2
  rw [isOperand, Bool.and_eq_true] at hoperand
  exact hoperand.1

theorem Unwraps.isExpression (h : Unwraps t t') (hnamed : t.named = true)
    (hexpression : t.kind.isExpression = true) :
    t'.named = true ∧ t'.kind.isExpression = true := by
  induction t using induct generalizing t' with
  | node info children ih =>
    cases h with
    | inside h => exact ⟨h.named.trans hnamed, h.kind ▸ hexpression⟩
    | around _ operand expression rest =>
      exact ih _ (mem_of_wrapped? operand) rest (named_of_wrapped? operand) expression

/-- A node stays what it is, or it is a wrapper that gives way to another expression. -/
theorem Unwraps.inside_or (h : Unwraps t t') :
    UnwrapsInside t t' ∨
      t.named = true ∧ t.kind.isExpression = true ∧
        t'.named = true ∧ t'.kind.isExpression = true := by
  cases h with
  | inside h => exact .inl h
  | around named operand expression rest =>
    exact .inr ⟨named, isExpression_of_wrapped? operand,
      rest.isExpression (named_of_wrapped? operand) expression⟩

/-! ## What is read of the children -/

/-- A test of children that overlooks wrappers. -/
def SeesThrough (p : Tree → Bool) : Prop :=
  ∀ {k : Kind} {c c' : Tree}, UnwrapsChild k c c' → p c' = p c

theorem seesThrough_inField (name : String) : SeesThrough (inField name) := by
  intro k c c' h
  rw [inField, h.field, inField]

theorem seesThrough_kind (hk : k.isExpression = false) : SeesThrough fun c => c.kind == k := by
  intro _ c c' h
  dsimp only
  rcases h.unwraps.inside_or with hinside | ⟨-, hexpression, -, hexpression'⟩
  · rw [hinside.kind]
  · have hne {d : Tree} (hd : d.kind.isExpression = true) : (d.kind == k) = false := by
      rw [beq_eq_false_iff_ne]
      rintro rfl
      rw [hd] at hk
      cases hk
    rw [hne hexpression, hne hexpression']

theorem seesThrough_isOperand : SeesThrough isOperand := by
  intro _ c c' h
  have hcomment : (c'.kind == .comment) = (c.kind == .comment) := seesThrough_kind rfl h
  have hnamed : c'.named = c.named := by
    rcases h.unwraps.inside_or with hinside | ⟨hnamed, -, hnamed', -⟩
    · exact hinside.named
    · rw [hnamed, hnamed']
  rw [isOperand, isOperand, hnamed, bne, bne, hcomment]

theorem seesThrough_token (token : String) :
    SeesThrough fun c => !c.named && c.text == token := by
  intro _ c c' h
  dsimp only
  rcases h.unwraps.inside_or with hinside | ⟨hnamed, -, hnamed', -⟩
  · rw [hinside.named]
    cases hnamed : c.named with
    | true => rfl
    | false => rw [hinside.text (by rw [Info.isRead, ← named, hnamed]; rfl)]
  · rw [hnamed, hnamed']
    rfl

section Related

variable {α β : Type} {R : α → α → Prop} {as bs : List α} (h : List.Forall₂ R as bs)

include h

theorem filter_related {p : α → Bool} (hp : ∀ {a b}, R a b → p b = p a) :
    List.Forall₂ R (as.filter p) (bs.filter p) :=
  List.rel_filter (fun a b hab => by show p a = true ↔ p b = true; rw [hp hab]) h

theorem map_related {f : α → β} (hf : ∀ {a b}, R a b → f b = f a) : bs.map f = as.map f := by
  induction h with
  | nil => rfl
  | cons head _ ih => rw [List.map_cons, hf head, ih, List.map_cons]

theorem any_related {p : α → Bool} (hp : ∀ {a b}, R a b → p b = p a) : bs.any p = as.any p := by
  induction h with
  | nil => rfl
  | cons head _ ih => rw [List.any_cons, List.any_cons, hp head, ih]

theorem head?_related : Option.Rel R as.head? bs.head? := by
  cases h with
  | nil => exact .none
  | cons head _ => exact .some head

theorem getLast?_related : Option.Rel R as.getLast? bs.getLast? := by
  rw [List.getLast?_eq_head?_reverse, List.getLast?_eq_head?_reverse]
  exact head?_related (List.rel_reverse h)

theorem getElem?_related (i : Nat) : Option.Rel R as[i]? bs[i]? := by
  rw [← List.head?_drop, ← List.head?_drop]
  exact head?_related (List.forall₂_drop i h)

theorem find?_related {p : α → Bool} (hp : ∀ {a b}, R a b → p b = p a) :
    Option.Rel (fun a b => R a b ∧ p a = true) (as.find? p) (bs.find? p) := by
  induction h with
  | nil => exact .none
  | @cons a b _ _ head _ ih =>
    rw [List.find?_cons, List.find?_cons, hp head]
    cases ha : p a with
    | true => exact .some ⟨head, ha⟩
    | false => exact ih

end Related

section Related

variable {α β : Type} {R S : α → α → Prop} {a? b? : Option α} (h : Option.Rel R a? b?)

include h

theorem rel_imp (hRS : ∀ {a b}, a? = some a → R a b → S a b) : Option.Rel S a? b? := by
  cases h with
  | none => exact .none
  | some h => exact .some (hRS rfl h)

theorem isSome_related : b?.isSome = a?.isSome := by
  cases h <;> rfl

theorem rel_map {T : β → β → Prop} {f g : α → β} (hfg : ∀ {a b}, R a b → T (f a) (g b)) :
    Option.Rel T (a?.map f) (b?.map g) := by
  cases h with
  | none => exact .none
  | some h => exact .some (hfg h)

theorem map_option_related {f : α → β} (hf : ∀ {a b}, a? = some a → R a b → f b = f a) :
    b?.map f = a?.map f := by
  cases h with
  | none => rfl
  | some h => exact congrArg some (hf rfl h)

theorem bind_related {f g : α → Option β} (hfg : ∀ {a b}, a? = some a → R a b → g b = f a) :
    b?.bind g = a?.bind f := by
  cases h with
  | none => rfl
  | some h => exact hfg rfl h

end Related

namespace UnwrapsInside

variable (h : UnwrapsInside t t')

include h

theorem childByField? (name : String) :
    Option.Rel (fun c c' => UnwrapsChild t.kind c c' ∧ c.inField name = true)
      (t.childByField? name) (t'.childByField? name) :=
  find?_related h.children (seesThrough_inField name)

/-- What stands in a field for a name, a list or the like keeps its root. -/
theorem childByField?_inside (name : String) (hkind : t.kind = k)
    (hvalue : k.takesValue (some name) = false) :
    Option.Rel (fun c c' => UnwrapsInside c c' ∧ c.inField name = true)
      (t.childByField? name) (t'.childByField? name) := by
  subst hkind
  refine rel_imp (h.childByField? name) fun {c c'} _ hc => ?_
  have hfield : c.field = some name := beq_iff_eq.mp hc.2
  exact ⟨hc.1.inside (hfield ▸ hvalue), hc.2⟩

theorem childByField?_text (name : String) (hread : name ∈ readFields) (hkind : t.kind = k)
    (hvalue : k.takesValue (some name) = false) :
    Option.Rel (fun c c' => UnwrapsInside c c' ∧ c'.text = c.text)
      (t.childByField? name) (t'.childByField? name) := by
  refine rel_imp (h.childByField?_inside name hkind hvalue) fun {c c'} _ ⟨hinside, hfield⟩ =>
    ⟨hinside, hinside.text ?_⟩
  have hany : (readFields.any fun name => c.info.field == some name) = true :=
    List.any_eq_true.mpr ⟨name, hread, hfield⟩
  rw [Info.isRead, hany, Bool.or_true]

theorem isSome_childByField? (name : String) :
    (t'.childByField? name).isSome = (t.childByField? name).isSome :=
  isSome_related (h.childByField? name)

theorem hasToken (token : String) : t'.hasToken token = t.hasToken token :=
  any_related h.children (seesThrough_token token)

theorem namedChildren : List.Forall₂ (UnwrapsChild t.kind) t.namedChildren t'.namedChildren :=
  filter_related h.children seesThrough_isOperand

theorem firstNamedChild? :
    Option.Rel (UnwrapsChild t.kind) t.firstNamedChild? t'.firstNamedChild? :=
  head?_related h.namedChildren

theorem lastNamedChild? : Option.Rel (UnwrapsChild t.kind) t.lastNamedChild? t'.lastNamedChild? :=
  getLast?_related h.namedChildren

theorem wrapped? : Option.Rel (UnwrapsChild t.kind) t.wrapped? t'.wrapped? := by
  rw [Tree.wrapped?, Tree.wrapped?, h.kind]
  split
  case h_5 => exact h.lastNamedChild?
  case h_6 => exact .none
  all_goals exact h.firstNamedChild?

theorem isInvocation : t'.isInvocation = t.isInvocation := by
  rw [Tree.isInvocation, h.kind, Tree.isInvocation]

theorem callee? : Option.Rel (UnwrapsChild t.kind) t.callee? t'.callee? := by
  rw [Tree.callee?, Tree.callee?, h.kind]
  cases t.kind.calleeField? with
  | none => exact .none
  | some name => exact rel_imp (h.childByField? name) fun _ hc => hc.1

theorem argumentList? :
    Option.Rel (fun c c' => UnwrapsInside c c' ∧ c.kind = .arguments)
      t.argumentList? t'.argumentList? := by
  rw [Tree.argumentList?, Tree.argumentList?, h.isInvocation]
  split
  · next hinvocation =>
    have hvalue : t.kind.takesValue (some "arguments") = false := by
      unfold Tree.isInvocation at hinvocation
      split at hinvocation
      case h_3 => cases hinvocation
      all_goals next hkind => rw [hkind]; rfl
    have hlist := h.childByField?_inside "arguments" rfl hvalue
    generalize t.childByField? "arguments" = list?, t'.childByField? "arguments" = list'? at hlist ⊢
    cases hlist with
    | none => exact .none
    | some hlist =>
      dsimp only
      rw [hlist.1.kind]
      split
      · next hkind => exact .some ⟨hlist.1, hkind⟩
      · exact .none
  · exact .none

theorem callArguments :
    List.Forall₂ (UnwrapsChild .arguments) t.callArguments t'.callArguments := by
  have hlist := h.argumentList?
  rw [Tree.callArguments, Tree.callArguments]
  generalize t.argumentList? = list?, t'.argumentList? = list'? at hlist ⊢
  cases hlist with
  | none => exact .nil
  | some hlist => exact hlist.2 ▸ hlist.1.namedChildren

theorem map_filter {α : Type} {g : Tree → α} {p : Tree → Bool} (hp : SeesThrough p)
    (hg : ∀ c ∈ t.children, ∀ c', Unwraps c c' → g c' = g c) :
    (t'.children.filter p).map g = (t.children.filter p).map g := by
  have hrel : List.Forall₂ (fun c c' => c ∈ t.children ∧ UnwrapsChild t.kind c c')
      t.children t'.children := (List.forall₂_and_left _ _).mpr ⟨fun _ hc => hc, h.children⟩
  exact map_related (filter_related hrel fun hc => hp hc.2) fun hc => hg _ hc.1 _ hc.2.unwraps

end UnwrapsInside

/-! ## Literal indexes -/

namespace Kind

def isIndexLiteral : Kind → Bool
  | .stringLiteral | .numberLiteral => true
  | _ => false

end Kind

mutual

/-- The kind of what is left of a tree without the wrappers around it. -/
def coreKind : Tree → Kind
  | .node info children =>
    match info.kind with
    | .parenthesizedExpression | .asExpression | .satisfiesExpression | .nonNullExpression =>
      (coreKinds children).head?.getD info.kind
    | .typeAssertion => (coreKinds children).getLast?.getD info.kind
    | kind => kind

def coreKinds : List Tree → List Kind
  | [] => []
  | t :: ts => if t.isOperand then coreKind t :: coreKinds ts else coreKinds ts

end

theorem coreKinds_eq (ts : List Tree) : coreKinds ts = (ts.filter isOperand).map coreKind := by
  induction ts with
  | nil => rfl
  | cons t ts ih =>
    rw [coreKinds, ih, List.filter_cons]
    split <;> rfl

theorem coreKind_eq (t : Tree) : t.coreKind = (t.wrapped?.map coreKind).getD t.kind := by
  obtain ⟨info, children⟩ := t
  rw [coreKind, coreKinds_eq, List.head?_map, List.getLast?_map, wrapped?]
  dsimp only [kind, Tree.info]
  split <;> rfl

theorem Unwraps.coreKind (h : Unwraps t t') : t'.coreKind = t.coreKind := by
  induction t using induct generalizing t' with
  | node info children ih =>
    rw [coreKind_eq (node info children)]
    cases h with
    | around _ operand _ rest =>
      rw [operand]
      exact ih _ (mem_of_wrapped? operand) rest
    | inside h =>
      have hoperand := map_option_related h.wrapped? fun hc hchild =>
        ih _ (mem_of_wrapped? hc) hchild.unwraps
      rw [coreKind_eq t', h.kind, hoperand]

theorem wrapped?_of_literal (h : t.kind.isIndexLiteral = true) : t.wrapped? = none := by
  unfold Kind.isIndexLiteral at h
  split at h
  case h_3 => cases h
  all_goals next hkind => rw [wrapped?, hkind]

theorem Unwraps.inside_of_literal (h : Unwraps t t') (hliteral : t.kind.isIndexLiteral = true) :
    UnwrapsInside t t' := by
  cases h with
  | inside h => exact h
  | around _ operand _ _ =>
    rw [wrapped?_of_literal hliteral] at operand
    cases operand

theorem UnwrapsInside.text_of_word (h : UnwrapsInside t t') (hword : t.kind.isWord = true) :
    t'.text = t.text := by
  refine h.text ?_
  rw [Info.isRead, show t.info.kind.isWord = true from hword, Bool.or_true, Bool.true_or]

theorem UnwrapsInside.text_of_literal (h : UnwrapsInside t t')
    (hliteral : t.kind.isIndexLiteral = true) : t'.text = t.text := by
  refine h.text_of_word ?_
  unfold Kind.isIndexLiteral at hliteral
  split at hliteral
  case h_3 => cases hliteral
  all_goals next hkind => rw [hkind]; rfl

/-- A literal that is the index of an element access is not wrapped. -/
def BareIndex (t : Tree) : Prop :=
  t.kind = .subscriptExpression → ∀ c ∈ t.children, c.inField "index" = true →
    c.coreKind.isIndexLiteral = true → c.kind.isIndexLiteral = true

instance (t : Tree) : Decidable t.BareIndex := inferInstanceAs (Decidable (_ → _))

/-- A bare index stays what it is, and what is no literal becomes none. -/
theorem UnwrapsInside.index (h : UnwrapsInside t t') (hbare : t.BareIndex)
    (hkind : t.kind = .subscriptExpression) :
    Option.Rel (fun c c' => UnwrapsInside c c' ∧ c.kind.isIndexLiteral = true ∨
        c.kind.isIndexLiteral = false ∧ c'.kind.isIndexLiteral = false)
      (t.childByField? "index") (t'.childByField? "index") := by
  refine rel_imp (h.childByField? "index") fun {c c'} hc ⟨hchild, hfield⟩ => ?_
  cases hliteral : c.kind.isIndexLiteral with
  | true => exact .inl ⟨hchild.unwraps.inside_of_literal hliteral, rfl⟩
  | false =>
    refine .inr ⟨rfl, Bool.eq_false_iff.mpr fun hliteral' => ?_⟩
    have hcore : c'.coreKind = c'.kind := by
      rw [coreKind_eq, wrapped?_of_literal hliteral']
      rfl
    rw [← hcore, hchild.unwraps.coreKind] at hliteral'
    rw [hbare hkind c (mem_of_childByField? hc) hfield hliteral'] at hliteral
    cases hliteral

/-! ## Access paths -/

theorem accessPath?_of_wrapped? (h : t.wrapped? = some c) : t.accessPath? = c.accessPath? := by
  obtain ⟨info, children⟩ := t
  unfold wrapped? at h
  split at h
  case h_6 => cases h
  case h_5 hk =>
    have hlast : (children.filter isOperand).getLast? = some c := h
    have hpath : (node info children).accessPath? =
        ((accessPaths isOperand children).getLast?).join := by
      rw [accessPath?, show info.kind = _ from hk]
    rw [hpath, accessPaths_eq, List.getLast?_map, hlast]
    rfl
  all_goals
    next hk =>
      have hfirst : (children.filter isOperand).head? = some c := h
      have hpath : (node info children).accessPath? =
          ((accessPaths isOperand children).head?).join := by
        rw [accessPath?, show info.kind = _ from hk]
      rw [hpath, accessPaths_eq, List.head?_map, hfirst]
      rfl

theorem accessPath?_unwraps (h : Unwraps t t') (hbare : t.Everywhere BareIndex) :
    t'.accessPath? = t.accessPath? := by
  induction t using induct generalizing t' with
  | node info children ih =>
    have ih (c : Tree) (hc : c ∈ children) (c' : Tree) (h : Unwraps c c') :=
      ih c hc h (hbare.child hc)
    cases h with
    | around _ operand _ rest =>
      rw [accessPath?_of_wrapped? operand]
      exact ih _ (mem_of_wrapped? operand) _ rest
    | inside h =>
      obtain ⟨info', children'⟩ := t'
      have hkind : info'.kind = info.kind := h.kind
      have hpaths {p : Tree → Bool} (hp : SeesThrough p) :
          (children'.filter p).map accessPath? = (children.filter p).map accessPath? :=
        h.map_filter hp ih
      have hword : info.kind.isWord = true → info'.text = info.text := h.text_of_word
      rw [accessPath?, accessPath?]
      simp only [accessPaths_eq, hkind, hpaths seesThrough_isOperand,
        hpaths (seesThrough_inField _)]
      split
      case h_1 hk | h_2 hk | h_3 hk => rw [hword (by rw [hk]; rfl)]
      case h_4 hk =>
        have hproperty := h.childByField?_text "property" (by decide) hk rfl
        refine congrArg (Option.bind _) (funext fun object => bind_related hproperty fun _ hc => ?_)
        rw [hc.2]
      case h_5 hk =>
        refine congrArg (Option.bind _) (funext fun object =>
          bind_related (h.index hbare.here hk) fun {c c'} _ hc => ?_)
        rcases hc with ⟨hinside, hliteral⟩ | ⟨hliteral, hliteral'⟩
        · rw [hinside.kind, hinside.text_of_literal hliteral]
        · split
          case h_1 hs | h_2 hs => rw [hs] at hliteral'; cases hliteral'
          case h_3 =>
            split
            case h_1 hs | h_2 hs => rw [hs] at hliteral; cases hliteral
            case h_3 => rfl
      all_goals rfl

/-- Without the wrappers around it a literal has no path. -/
theorem accessPath?_of_coreKind (h : t.coreKind.isIndexLiteral = true) : t.accessPath? = none := by
  induction t using induct with
  | node info children ih =>
    rw [coreKind_eq] at h
    cases hoperand : (node info children).wrapped? with
    | some c =>
      rw [hoperand] at h
      rw [accessPath?_of_wrapped? hoperand]
      exact ih c (mem_of_wrapped? hoperand) h
    | none =>
      rw [hoperand] at h
      have hliteral : info.kind.isIndexLiteral = true := h
      unfold Kind.isIndexLiteral at hliteral
      split at hliteral
      case h_3 => cases hliteral
      all_goals next hk => rw [accessPath?, hk]

theorem referencePath_unwraps (h : Unwraps t t') (hbare : t.Everywhere BareIndex) :
    t'.referencePath = t.referencePath := by
  rw [referencePath, accessPath?_unwraps h hbare, referencePath]

end Tree

/-! ## Types by declaration -/

namespace Declared

open Reify.Tree

variable {t c t' : Tree}

theorem typeOf_of_wrapped? (d : Declared) (h : t.wrapped? = some c) : d.typeOf t = d.typeOf c := by
  obtain ⟨info, children⟩ := t
  unfold wrapped? at h
  split at h
  case h_6 => cases h
  case h_5 hk =>
    have hlast : (children.filter isOperand).getLast? = some c := h
    have htype : d.typeOf (.node info children) =
        ((d.typesIn isOperand children).getLast?).join := by
      rw [typeOf, show info.kind = _ from hk]
    rw [htype, typesIn_eq, List.getLast?_map, hlast]
    rfl
  all_goals
    next hk =>
      have hfirst : (children.filter isOperand).head? = some c := h
      have htype : d.typeOf (.node info children) =
          ((d.typesIn isOperand children).head?).join := by
        rw [typeOf, show info.kind = _ from hk]
      rw [htype, typesIn_eq, List.head?_map, hfirst]
      rfl

theorem elementAt_eq (d : Declared) (object : Ty) {index index' : Tree}
    (h : UnwrapsInside index index' ∧ index.kind.isIndexLiteral = true ∨
      index.kind.isIndexLiteral = false ∧ index'.kind.isIndexLiteral = false) :
    d.elementAt object index' = d.elementAt object index := by
  rcases h with ⟨hinside, hliteral⟩ | ⟨hliteral, hliteral'⟩
  · rw [elementAt, hinside.kind, hinside.text_of_literal hliteral, elementAt]
  · have hother {c : Tree} (hc : c.kind.isIndexLiteral = false) :
        d.elementAt object c = d.element object := by
      refine if_neg fun hkind => ?_
      rw [hkind] at hc
      cases hc
    rw [hother hliteral, hother hliteral']

theorem typeOf_unwraps (d : Declared) (h : Unwraps t t') (hbare : t.Everywhere BareIndex) :
    d.typeOf t' = d.typeOf t := by
  induction t using induct generalizing t' with
  | node info children ih =>
    have ih (c : Tree) (hc : c ∈ children) (c' : Tree) (h : Unwraps c c') :=
      ih c hc h (hbare.child hc)
    cases h with
    | around _ operand _ rest =>
      rw [d.typeOf_of_wrapped? operand]
      exact ih _ (mem_of_wrapped? operand) _ rest
    | inside h =>
      obtain ⟨info', children'⟩ := t'
      have hkind : info'.kind = info.kind := h.kind
      have htypes {p : Tree → Bool} (hp : SeesThrough p) :
          (children'.filter p).map d.typeOf = (children.filter p).map d.typeOf :=
        h.map_filter hp ih
      have hword : info.kind.isWord = true → info'.text = info.text := h.text_of_word
      rw [typeOf, typeOf]
      simp only [typesIn_eq, hkind, htypes seesThrough_isOperand,
        htypes (seesThrough_inField _)]
      split
      case h_1 hk | h_2 hk => rw [hword (by rw [hk]; rfl)]
      case h_3 hk =>
        have hproperty := h.childByField?_text "property" (by decide) hk rfl
        refine congrArg (Option.bind _) (funext fun object => bind_related hproperty fun _ hc => ?_)
        rw [hc.2]
      case h_4 hk =>
        exact congrArg (Option.bind _) (funext fun object =>
          bind_related (h.index hbare.here hk) fun _ hc => d.elementAt_eq object hc)
      case h_12 hk => rw [hword (by rw [hk]; rfl)]
      all_goals rfl

theorem resolvedSignature_unwraps (d : Declared) (h : UnwrapsInside t t')
    (hbare : t.Everywhere BareIndex) : d.resolvedSignature t' = d.resolvedSignature t := by
  unfold resolvedSignature
  rw [← h.callArguments.length_eq]
  refine bind_related h.callee? fun {c c'} hc hchild => ?_
  rw [d.typeOf_unwraps hchild.unwraps (hbare.child (mem_of_callee? hc))]

end Declared
end Reify
