/-
The references of a lowered function, and the accesses they are made from.

`asked o pos t` is what lowering reads below `t` in a position, in the order in which the nodes
are constructed: a reference is read no further, and an argument that no parameter is bound to
is not read.  `resolutions` follows it down to the accesses that become references, and keeps
the names bound around each.  The references of a lowered node are those of its resolutions, in
order and one each (`traced`).
-/
import Reify.Node.Traversal
import Reify.Proofs.Lowering.Parts
import Reify.Proofs.Lowering.Scope

namespace Reify

open Lowering

/-! ## References in a node -/

namespace Node

namespace Visit

def reference? : Visit → Option (String × String)
  | .reference path expr => some (path, expr)
  | .enter _ | .error _ => none

end Visit

/-- The references in a node, each with its path and its expression, in the order of
construction. -/
def references (n : Node) : List (String × String) := n.visits.filterMap Visit.reference?

theorem references_eq {n : Node} (h : n.kind ≠ .referenceExpr) :
    n.references = n.children.flatMap references := by
  have hroot : (Visit.ofNode n).reference? = none := by
    cases n with
    | referenceExpr => exact absurd rfl h
    | _ => rfl
  rw [references, visits_eq_cons, List.filterMap_cons_none hroot, List.filterMap_flatMap]
  rfl

end Node

/-! ## What lowering reads -/

def askField (pos : Position) (name : String) (t : Tree) : List (Position × Tree) :=
  (t.childByField? name).toList.map (pos, ·)

def askOperand (pos : Position) (t : Tree) : List (Position × Tree) :=
  t.firstNamedChild?.toList.map (pos, ·)

def boundFrom (supplied : List Tree) (index : Nat) : List Parameter → List Tree
  | [] => []
  | p :: ps =>
    (if p.rest then supplied.drop index else supplied[index]?.toList) ++
      boundFrom supplied (index + 1) ps

/-- The arguments that an invocation is lowered with. -/
def boundArguments (o : Oracle) (t : Tree) : List Tree :=
  match Arguments.usableSignature o t with
  | .ok (some ⟨p :: ps⟩) => boundFrom t.callArguments 0 (p :: ps)
  | _ => t.callArguments

def askedByExpr (o : Oracle) (t : Tree) : List (Position × Tree) :=
  match t.kind with
  | .templateString => (t.children.filter isSubstitution).map (.substitution, ·)
  | .parenthesizedExpression | .asExpression | .satisfiesExpression | .nonNullExpression =>
    askOperand .value t
  | .typeAssertion => t.lastNamedChild?.toList.map (.value, ·)
  | .memberExpression => askField .value "object" t
  | .subscriptExpression => askField .value "object" t ++ askField .value "index" t
  | .callExpression => askField .value "function" t ++ (boundArguments o t).map (.element, ·)
  | .newExpression =>
    askField .value "constructor" t ++ (boundArguments o t).map (.element, ·)
  | .binaryExpression | .assignmentExpression =>
    askField .value "left" t ++ askField .value "right" t
  | .unaryExpression => askField .value "argument" t
  | .ternaryExpression =>
    askField .value "condition" t ++ (askField .value "consequence" t ++
      askField .value "alternative" t)
  | .array => (t.children.filter Tree.isOperand).map (.element, ·)
  | .object => (t.children.filter Tree.isOperand).map (.property, ·)
  | .arrowFunction | .functionExpression => askField .functionBody "body" t
  | _ => []

def askedByStatement (t : Tree) : List (Position × Tree) :=
  match t.kind with
  | .expressionStatement | .returnStatement | .throwStatement => askOperand .value t
  | .statementBlock => t.namedChildren.map (.branch, ·)
  | .lexicalDeclaration | .variableDeclaration =>
    (t.children.filter isDeclarator).map (.declarator, ·)
  | .ifStatement =>
    askField .value "condition" t ++ (askField .branch "consequence" t ++
      askField .elseClause "alternative" t)
  | .whileStatement => askField .value "condition" t ++ askField .loopBody "body" t
  | .doStatement => askField .loopBody "body" t ++ askField .value "condition" t
  | .forInStatement => askField .value "right" t ++ askField .loopBody "body" t
  | .tryStatement =>
    askField .block "body" t ++ (askField .catchClause "handler" t ++
      askField .finallyClause "finalizer" t)
  | .functionDeclaration => askField .functionBody "body" t
  | _ => []

def readsExpr : Position → Tree → Bool
  | .value, _ => true
  | .element, t => t.kind != .spreadElement
  | .property, t => t.kind == .shorthandPropertyIdentifier
  | .functionBody, t => t.kind != .statementBlock
  | _, _ => false

/-- What is read below a tree in a position. -/
def asked (o : Oracle) (pos : Position) (t : Tree) : List (Position × Tree) :=
  if readsExpr pos t then askedByExpr o t
  else
    match pos with
    | .value | .element | .substitution => askOperand .value t
    | .property =>
      if t.kind = .pair then askField .propertyName "key" t ++ askField .value "value" t
      else askOperand .value t
    | .propertyName => if t.kind = .computedPropertyName then askOperand .value t else []
    | .functionBody | .block => t.namedChildren.map (.branch, ·)
    | .loopBody =>
      if t.kind = .statementBlock then t.namedChildren.map (.branch, ·) else askedByStatement t
    | .branch => askedByStatement t
    | .elseClause => askOperand .branch t
    | .declarator => askField .value "value" t
    | .catchClause | .finallyClause => askField .block "body" t

def Tree.Kind.isAccess : Tree.Kind → Bool
  | .identifier | .shorthandPropertyIdentifier | .memberExpression | .subscriptExpression => true
  | _ => false

/-- Whether an expression becomes a reference if its type is marked; `undefined` is no name. -/
def isAccess (t : Tree) : Bool := t.kind.isAccess && !(t.kind.isName && t.text == "undefined")

/-- Whether a tree becomes a reference where it stands. -/
def isResolved (o : Oracle) (pos : Position) (t : Tree) : Bool :=
  readsExpr pos t && isAccess t && (o.resolveReference? t).isSome

/-! ## What is read lies below -/

theorem mem_askField {pos : Position} {name : String} {t : Tree} {x : Position × Tree}
    (h : x ∈ askField pos name t) : x.2 ∈ t.children := by
  obtain ⟨c, hc, rfl⟩ := List.mem_map.mp h
  exact Tree.mem_of_childByField? (Option.mem_toList.mp hc)

theorem mem_askOperand {pos : Position} {t : Tree} {x : Position × Tree}
    (h : x ∈ askOperand pos t) : x.2 ∈ t.children := by
  obtain ⟨c, hc, rfl⟩ := List.mem_map.mp h
  exact Tree.mem_of_firstNamedChild? (Option.mem_toList.mp hc)

theorem mem_boundFrom {supplied : List Tree} {ps : List Parameter} {index : Nat} {c : Tree}
    (h : c ∈ boundFrom supplied index ps) : c ∈ supplied := by
  induction ps generalizing index with
  | nil => cases h
  | cons p ps ih =>
    rcases List.mem_append.mp h with h | h
    · split at h
      · exact List.mem_of_mem_drop h
      · exact List.mem_of_getElem? (Option.mem_toList.mp h)
    · exact ih h

theorem mem_boundArguments {o : Oracle} {t c : Tree} (h : c ∈ boundArguments o t) :
    c ∈ t.callArguments := by
  unfold boundArguments at h
  split at h
  · exact mem_boundFrom h
  · exact h

/-- What is read lies one level down, or two if it is an argument. -/
def Tree.Below (t c : Tree) : Prop := c ∈ t.children ∨ ∃ list ∈ t.children, c ∈ list.children

theorem Tree.sizeOf_lt_of_mem_children {t c : Tree} (h : c ∈ t.children) :
    sizeOf c < sizeOf t := by
  obtain ⟨info, children⟩ := t
  have hlt := List.sizeOf_lt_of_mem h
  rw [Tree.node.sizeOf_spec]
  rw [Tree.children] at hlt
  omega

theorem Tree.Below.sizeOf_lt {t c : Tree} (h : t.Below c) : sizeOf c < sizeOf t := by
  rcases h with h | ⟨list, hlist, hc⟩
  · exact sizeOf_lt_of_mem_children h
  · exact Nat.lt_trans (sizeOf_lt_of_mem_children hc) (sizeOf_lt_of_mem_children hlist)

theorem below_of_mem_map {t : Tree} {pos : Position} {ts : List Tree} {x : Position × Tree}
    (hts : ∀ c ∈ ts, t.Below c) (h : x ∈ ts.map (pos, ·)) : t.Below x.2 := by
  obtain ⟨c, hc, rfl⟩ := List.mem_map.mp h
  exact hts c hc

section Below

variable {t : Tree}

theorem askField_below {pos : Position} {name : String} :
    ∀ x ∈ askField pos name t, t.Below x.2 :=
  fun _ hx => .inl (mem_askField hx)

theorem askOperand_below {pos : Position} : ∀ x ∈ askOperand pos t, t.Below x.2 :=
  fun _ hx => .inl (mem_askOperand hx)

theorem filter_below {pos : Position} {p : Tree → Bool} :
    ∀ x ∈ (t.children.filter p).map (pos, ·), t.Below x.2 :=
  fun _ hx => below_of_mem_map (fun _ hc => .inl (List.mem_of_mem_filter hc)) hx

theorem askedByExpr_below {o : Oracle} : ∀ x ∈ askedByExpr o t, t.Below x.2 := by
  have last : ∀ x ∈ t.lastNamedChild?.toList.map (Position.value, ·), t.Below x.2 := fun x hx =>
    below_of_mem_map
      (fun c hc => .inl (Tree.mem_of_lastNamedChild? (Option.mem_toList.mp hc))) hx
  have arguments : ∀ x ∈ (boundArguments o t).map (Position.element, ·), t.Below x.2 :=
    fun x hx => below_of_mem_map
      (fun c hc => .inr (Tree.exists_list_of_mem_callArguments (mem_boundArguments hc))) hx
  unfold askedByExpr
  split
  all_goals
    first
      | exact askField_below
      | exact askOperand_below
      | exact filter_below
      | exact last
      | exact List.forall_mem_nil _
      | exact List.forall_mem_append.mpr ⟨askField_below, askField_below⟩
      | exact List.forall_mem_append.mpr ⟨askField_below, arguments⟩
      | exact List.forall_mem_append.mpr
          ⟨askField_below, List.forall_mem_append.mpr ⟨askField_below, askField_below⟩⟩

theorem askedByStatement_below : ∀ x ∈ askedByStatement t, t.Below x.2 := by
  unfold askedByStatement
  split
  all_goals
    first
      | exact askField_below
      | exact askOperand_below
      | exact filter_below
      | exact List.forall_mem_nil _
      | exact List.forall_mem_append.mpr ⟨askField_below, askField_below⟩
      | exact List.forall_mem_append.mpr
          ⟨askField_below, List.forall_mem_append.mpr ⟨askField_below, askField_below⟩⟩

theorem asked_below {o : Oracle} {pos : Position} : ∀ x ∈ asked o pos t, t.Below x.2 := by
  unfold asked
  split
  · exact askedByExpr_below
  · split
    all_goals try split
    all_goals
      first
        | exact askField_below
        | exact askOperand_below
        | exact filter_below
        | exact askedByStatement_below
        | exact List.forall_mem_nil _
        | exact List.forall_mem_append.mpr ⟨askField_below, askField_below⟩

end Below

/-! ## Resolutions -/

/-- An access that becomes a reference, with the names bound around it. -/
structure Resolution where
  access : Tree
  bound : List String

namespace Resolution

def reference (r : Resolution) : String × String := (r.access.referencePath, r.access.text)

def within (names : List String) (r : Resolution) : Resolution := ⟨r.access, names ++ r.bound⟩

end Resolution

/-- The accesses that become references when a tree is lowered in a position. -/
def resolutions (o : Oracle) (pos : Position) (t : Tree) : List Resolution :=
  if isResolved o pos t then [⟨t, []⟩]
  else (asked o pos t).attach.flatMap fun x =>
    (resolutions o x.1.1 x.1.2).map (Resolution.within t.binds)
termination_by sizeOf t
decreasing_by exact (asked_below x.1 x.2).sizeOf_lt

theorem resolutions_eq (o : Oracle) (pos : Position) (t : Tree) :
    resolutions o pos t =
      if isResolved o pos t then [⟨t, []⟩]
      else (asked o pos t).flatMap fun x =>
        (resolutions o x.1 x.2).map (Resolution.within t.binds) := by
  rw [resolutions]
  split
  · rfl
  · simp only [List.flatMap_subtype, List.unattach_attach]

/-! ## The references of a lowered node -/

def referencesOf (o : Oracle) (pos : Position) (t : Tree) : List (String × String) :=
  (resolutions o pos t).map Resolution.reference

def referencesIn (o : Oracle) (xs : List (Position × Tree)) : List (String × String) :=
  xs.flatMap fun x => referencesOf o x.1 x.2

theorem referencesIn_append (o : Oracle) (xs ys : List (Position × Tree)) :
    referencesIn o (xs ++ ys) = referencesIn o xs ++ referencesIn o ys :=
  List.flatMap_append

theorem referencesOf_eq (o : Oracle) (pos : Position) (t : Tree) :
    referencesOf o pos t =
      if isResolved o pos t then [(t.referencePath, t.text)] else referencesIn o (asked o pos t) := by
  rw [referencesOf, resolutions_eq]
  split
  · rfl
  · have hwithin : Resolution.reference ∘ Resolution.within t.binds = Resolution.reference := rfl
    rw [referencesIn, List.map_flatMap]
    simp only [List.map_map, hwithin]
    rfl

def exprReferences (o : Oracle) (t : Tree) : List (String × String) :=
  if isAccess t && (o.resolveReference? t).isSome then [(t.referencePath, t.text)]
  else referencesIn o (askedByExpr o t)

theorem referencesOf_of_readsExpr {o : Oracle} {pos : Position} {t : Tree}
    (h : readsExpr pos t = true) : referencesOf o pos t = exprReferences o t := by
  have hasked : asked o pos t = askedByExpr o t := by rw [asked.eq_def, if_pos h]
  rw [referencesOf_eq, exprReferences, isResolved, hasked, h, Bool.true_and]

theorem referencesOf_of_asked {o : Oracle} {pos : Position} {t : Tree}
    {xs : List (Position × Tree)} (h : readsExpr pos t = false) (hasked : asked o pos t = xs) :
    referencesOf o pos t = referencesIn o xs := by
  rw [referencesOf_eq, isResolved, h, Bool.false_and, Bool.false_and, if_neg Bool.false_ne_true,
    hasked]

/-- Whatever the tree lowers to has the references that it becomes or holds. -/
structure Traced (o : Oracle) (t : Tree) : Prop where
  part : ∀ pos n, lowerAt o pos t = .ok n → n.references = referencesOf o pos t
  statement : ∀ ns, lowerStatement o t = .ok ns →
    ns.flatMap Node.references = referencesOf o .branch t

theorem flatMap_forall₂ {o : Oracle} {pos : Position} {ts : List Tree} {ns : List Node}
    (h : List.Forall₂ (fun c n => lowerAt o pos c = .ok n) ts ns)
    (hts : ∀ c ∈ ts, Traced o c) :
    ns.flatMap Node.references = referencesIn o (ts.map (pos, ·)) := by
  induction h with
  | nil => rfl
  | @cons c n cs ns hn _ ih =>
    have htail := ih fun d hd => hts d (List.mem_cons_of_mem c hd)
    rw [List.flatMap_cons, (hts c List.mem_cons_self).part pos n hn, htail]
    rfl

theorem optional_references {o : Oracle} {pos : Position} {c? : Option Tree} {n? : Option Node}
    (h : Option.Rel (fun c n => lowerAt o pos c = .ok n) c? n?)
    (hc : ∀ c, c? = some c → Traced o c) :
    n?.toList.flatMap Node.references = referencesIn o (c?.toList.map (pos, ·)) := by
  cases h with
  | none => rfl
  | @some c n hn =>
    have hpart := (hc c rfl).part pos n hn
    simp [referencesIn, hpart]

section Below

variable {o : Oracle} {t : Tree} (hbelow : ∀ c ∈ t.children, Traced o c)

include hbelow

theorem FieldForm.references {pos : Position} {name : String} {n : Node}
    (h : FieldForm o t pos name n) :
    n.references = referencesIn o (askField pos name t) := by
  obtain ⟨c, hc, hn⟩ := h
  have hpart := (hbelow c (Tree.mem_of_childByField? hc)).part pos n hn
  simp [referencesIn, askField, hc, hpart]

theorem OperandForm.references {pos : Position} {n : Node} (h : OperandForm o t pos n) :
    n.references = referencesIn o (askOperand pos t) := by
  obtain ⟨c, hc, hn⟩ := h
  have hpart := (hbelow c (Tree.mem_of_firstNamedChild? hc)).part pos n hn
  simp [referencesIn, askOperand, hc, hpart]

theorem OptionalForm.references {pos : Position} {name : String} {n? : Option Node}
    (h : OptionalForm o t pos name n?) :
    n?.toList.flatMap Node.references = referencesIn o (askField pos name t) :=
  optional_references h fun c hc => hbelow c (Tree.mem_of_childByField? hc)

theorem ListForm.references {pos : Position} {p : Tree → Bool} {ns : List Node}
    (h : ListForm o t pos p ns) :
    ns.flatMap Node.references = referencesIn o ((t.children.filter p).map (pos, ·)) :=
  flatMap_forall₂ h fun c hc => hbelow c (List.mem_of_mem_filter hc)

theorem StatementsForm.references {ns : List Node} (h : StatementsForm o t ns) :
    ns.flatMap Node.references = referencesIn o (t.namedChildren.map (.branch, ·)) := by
  obtain ⟨nss, hnss, rfl⟩ := h
  have hts : ∀ c ∈ t.namedChildren, Traced o c :=
    fun c hc => hbelow c (Tree.mem_of_mem_namedChildren hc)
  generalize t.namedChildren = cs at hnss hts ⊢
  induction hnss with
  | nil => rfl
  | @cons c ns cs nss hns _ ih =>
    have htail := ih fun d hd => hts d (List.mem_cons_of_mem c hd)
    rw [List.flatten_cons, List.flatMap_append, (hts c List.mem_cons_self).statement ns hns, htail]
    rfl

end Below

theorem ValueForm.references {o : Oracle} {supplied : List Tree} {index : Nat} {p : Parameter}
    {n? : Option Node} (h : ValueForm o supplied index p n?) (hargs : ∀ c ∈ supplied, Traced o c) :
    n?.toList.flatMap Node.references = referencesIn o
      ((if p.rest then supplied.drop index else supplied[index]?.toList).map (.element, ·)) := by
  cases h with
  | @rest ns rest lowered =>
    have hitems := flatMap_forall₂ lowered fun c hc => hargs c (List.mem_of_mem_drop hc)
    rw [if_pos rest, ← hitems, Option.toList_some, List.flatMap_singleton,
      Node.references_eq (by simp [Node.kind])]
    rfl
  | plain plain lowered =>
    rw [plain, if_neg Bool.false_ne_true]
    exact optional_references lowered fun c hc => hargs c (List.mem_of_getElem? hc)

theorem argument_references (n? : Option Node) (name : Option String) :
    (Node.argument n? name).references = n?.toList.flatMap Node.references :=
  Node.references_eq (by simp [Node.kind])

theorem BoundForm.references {o : Oracle} {supplied : List Tree} {index : Nat}
    {ps : List Parameter} {ns : List Node} (h : BoundForm o supplied index ps ns)
    (hargs : ∀ c ∈ supplied, Traced o c) :
    ns.flatMap Node.references =
      referencesIn o ((boundFrom supplied index ps).map (.element, ·)) := by
  induction h with
  | nil => rfl
  | cons value _ ih =>
    rw [List.flatMap_cons, argument_references, value.references hargs, ih, boundFrom,
      List.map_append, referencesIn_append]

theorem ArgumentsForm.references {o : Oracle} {t : Tree} {ns : List Node}
    (h : ArgumentsForm o t ns) (hargs : ∀ c ∈ t.callArguments, Traced o c) :
    ns.flatMap Node.references = referencesIn o ((boundArguments o t).map (.element, ·)) := by
  cases h with
  | @bound p ps ns signature bound =>
    have hbound : boundArguments o t = boundFrom t.callArguments 0 (p :: ps) := by
      rw [boundArguments, signature]
    rw [hbound]
    exact bound.references hargs
  | @positional s? ns signature free lowered =>
    have hbound : boundArguments o t = t.callArguments := by
      rw [boundArguments, signature]
      split
      · next heq => exact absurd (Except.ok.inj heq) (free _ _)
      · rfl
    have hargument : Node.references ∘ (fun n => Node.argument (some n) none) =
        Node.references := by
      funext n
      simp [argument_references]
    rw [hbound, ← flatMap_forall₂ lowered hargs, List.flatMap_map]
    exact congrArg (fun f => ns.flatMap f) hargument

theorem resolveReference?_eq {o : Oracle} {t : Tree} {n : Node}
    (h : o.resolveReference? t = some n) : n = .referenceExpr t.referencePath t.text := by
  unfold Oracle.resolveReference? at h
  split at h
  · exact (Option.some.inj h).symm
  · cases h

theorem exprReferences_of_reference {o : Oracle} {t : Tree} {n : Node}
    (haccess : isAccess t = true) (h : o.resolveReference? t = some n) :
    n.references = exprReferences o t := by
  rw [exprReferences, haccess, h, resolveReference?_eq h]
  rfl

theorem exprReferences_of_not_access {o : Oracle} {t : Tree} (h : isAccess t = false) :
    exprReferences o t = referencesIn o (askedByExpr o t) := by
  rw [exprReferences, h, Bool.false_and, if_neg Bool.false_ne_true]

theorem exprReferences_of_untyped {o : Oracle} {t : Tree} (h : o.resolveReference? t = none) :
    exprReferences o t = referencesIn o (askedByExpr o t) := by
  rw [exprReferences, h, Option.isSome_none, Bool.and_false, if_neg Bool.false_ne_true]

theorem exprReferences_of_kind {o : Oracle} {t : Tree} {k : Tree.Kind} (hk : t.kind = k)
    (h : k.isAccess = false) : exprReferences o t = referencesIn o (askedByExpr o t) :=
  exprReferences_of_not_access (by rw [isAccess, hk, h, Bool.false_and])

theorem literalOf?_references {i : Tree.Info} {n : Node} (h : literalOf? i = some n) :
    n.references = [] := by
  unfold literalOf? at h
  split at h
  case h_7 => cases h
  all_goals
    obtain rfl := Option.some.inj h
    rfl

theorem isAccess_of_isName {k : Tree.Kind} (h : k.isName = true) : k.isAccess = true := by
  unfold Tree.Kind.isName at h
  split at h
  case h_3 => cases h
  all_goals rfl

theorem askedByExpr_of_isName {o : Oracle} {t : Tree} (h : t.kind.isName = true) :
    askedByExpr o t = [] := by
  unfold Tree.Kind.isName at h
  split at h
  case h_3 => cases h
  all_goals next hk => simp only [askedByExpr, hk]

theorem exprReferences_of_isWrapper {o : Oracle} {t : Tree} (h : t.kind.isWrapper = true) :
    exprReferences o t = referencesIn o (askOperand .value t) := by
  unfold Tree.Kind.isWrapper at h
  split at h
  case h_5 => cases h
  all_goals next hk => rw [exprReferences_of_kind hk rfl, askedByExpr, hk]

theorem exprReferences_of_literalOf? {o : Oracle} {t : Tree} {n : Node}
    (h : literalOf? t.info = some n) : exprReferences o t = [] := by
  unfold literalOf? at h
  split at h
  case h_7 => cases h
  all_goals
    next hk =>
      have hkind := show t.kind = _ from hk
      rw [exprReferences_of_kind hkind rfl, askedByExpr, hkind]
      rfl

theorem boundFrom_nil (ps : List Parameter) (index : Nat) : boundFrom [] index ps = [] := by
  induction ps generalizing index with
  | nil => rfl
  | cons p ps ih =>
    rw [boundFrom, ih, List.append_nil]
    split
    · exact List.drop_nil
    · rfl

theorem boundArguments_of_no_list {o : Oracle} {t : Tree}
    (h : t.childByField? "arguments" = none) : boundArguments o t = [] := by
  have hnone : t.callArguments = [] := by
    rw [Tree.callArguments, Tree.argumentList?, h]
    split
    · next list hlist =>
      split at hlist <;> cases hlist
    · rfl
  unfold boundArguments
  rw [hnone]
  split
  · exact boundFrom_nil _ 0
  · rfl

theorem parameterDecls_references (names : List String) :
    (names.map Node.parameterDecl).flatMap Node.references = [] := by
  rw [List.flatMap_eq_nil_iff]
  intro n hn
  obtain ⟨name, -, rfl⟩ := List.mem_map.mp hn
  rfl

theorem build_references (flavor : FunctionFlavor) (names : List String) (b : Node) :
    (flavor.build (names.map .parameterDecl) b).references = b.references := by
  cases flavor <;>
    rw [FunctionFlavor.build, Node.references_eq (by simp [Node.kind]), Node.children,
      List.flatMap_append, parameterDecls_references, List.nil_append, List.flatMap_singleton]

theorem functionExpr_references (names : List String) (b : Node) :
    (Node.functionExpr (names.map .parameterDecl) b).references = b.references :=
  build_references .expression names b

theorem ExprForm.references {o : Oracle} {t : Tree} {n : Node} (h : ExprForm o t n)
    (hbelow : ∀ c ∈ t.children, Traced o c) (hargs : ∀ c ∈ t.callArguments, Traced o c) :
    n.references = exprReferences o t := by
  cases h with
  | undefinedName kind text =>
    have haccess : isAccess t = false := by simp [isAccess, kind, text]
    rw [exprReferences_of_not_access haccess, askedByExpr_of_isName kind]
    rfl
  | name kind text untyped =>
    rw [exprReferences_of_untyped untyped, askedByExpr_of_isName kind]
    rfl
  | nameReference kind text reference =>
    have haccess : isAccess t = true := by simp [isAccess, isAccess_of_isName kind, text]
    exact exprReferences_of_reference haccess reference
  | literal found =>
    rw [exprReferences_of_literalOf? found]
    exact literalOf?_references found
  | template kind assembled =>
    obtain ⟨parts, rfl, hparts⟩ := assemble_template_form assembled
    have hnodes := flatMap_forall₂ hparts fun c hc => hbelow c (List.mem_of_mem_filter hc)
    rw [exprReferences_of_kind kind rfl, askedByExpr, kind]
    rw [← hnodes, Node.references_eq (by simp [Node.kind])]
    rfl
  | wrapper kind operand =>
    rw [exprReferences_of_isWrapper kind]
    exact operand.references hbelow
  | @assertion c n kind operand lowered =>
    have hpart := (hbelow c (Tree.mem_of_lastNamedChild? operand)).part .value n lowered
    rw [exprReferences_of_kind kind rfl, askedByExpr, kind]
    simp [referencesIn, operand, hpart]
  | accessReference kind plain reference =>
    have haccess : isAccess t = true := by
      rcases kind with kind | kind <;> rw [isAccess, kind] <;> rfl
    exact exprReferences_of_reference haccess reference
  | member kind plain untyped object property =>
    rw [exprReferences_of_untyped untyped, askedByExpr, kind]
    rw [← object.references hbelow, Node.references_eq (by simp [Node.kind])]
    simp [Node.children]
  | subscript kind plain untyped object index =>
    rw [exprReferences_of_untyped untyped, askedByExpr, kind]
    rw [referencesIn_append, ← object.references hbelow, ← index.references hbelow,
      Node.references_eq (by simp [Node.kind])]
    simp [Node.children]
  | call kind plain untagged callee bound =>
    have hbound := (bindArguments_form bound).references hargs
    rw [exprReferences_of_kind kind rfl, askedByExpr, kind]
    rw [referencesIn_append, ← callee.references hbelow, ← hbound,
      Node.references_eq (by simp [Node.kind])]
    rfl
  | new kind list bound callee =>
    have hbound := (bindArguments_form bound).references hargs
    rw [exprReferences_of_kind kind rfl, askedByExpr, kind]
    rw [referencesIn_append, ← callee.references hbelow, ← hbound,
      Node.references_eq (by simp [Node.kind])]
    rfl
  | newBare kind list callee =>
    rw [exprReferences_of_kind kind rfl, askedByExpr, kind]
    rw [referencesIn_append, ← callee.references hbelow, boundArguments_of_no_list list,
      Node.references_eq (by simp [Node.kind])]
    rfl
  | binary kind operator known left right =>
    rw [exprReferences_of_kind kind rfl, askedByExpr, kind]
    rw [referencesIn_append, ← left.references hbelow, ← right.references hbelow,
      Node.references_eq (by simp [Node.kind])]
    simp [Node.children]
  | assignment kind left right =>
    rw [exprReferences_of_kind kind rfl, askedByExpr, kind]
    rw [referencesIn_append, ← left.references hbelow, ← right.references hbelow,
      Node.references_eq (by simp [Node.kind])]
    simp [Node.children]
  | typeof kind operator text operand =>
    rw [exprReferences_of_kind kind rfl, askedByExpr, kind]
    rw [← operand.references hbelow, Node.references_eq (by simp [Node.kind])]
    simp [Node.children]
  | unary kind operator text known operand =>
    rw [exprReferences_of_kind kind rfl, askedByExpr, kind]
    rw [← operand.references hbelow, Node.references_eq (by simp [Node.kind])]
    simp [Node.children]
  | ternary kind condition thenValue elseValue =>
    rw [exprReferences_of_kind kind rfl, askedByExpr, kind]
    rw [referencesIn_append, referencesIn_append, ← condition.references hbelow,
      ← thenValue.references hbelow, ← elseValue.references hbelow,
      Node.references_eq (by simp [Node.kind])]
    simp [Node.children]
  | array kind items =>
    rw [exprReferences_of_kind kind rfl, askedByExpr, kind]
    rw [← items.references hbelow, Node.references_eq (by simp [Node.kind])]
    rfl
  | object kind properties =>
    rw [exprReferences_of_kind kind rfl, askedByExpr, kind]
    rw [← properties.references hbelow, Node.references_eq (by simp [Node.kind])]
    rfl
  | function kind function =>
    have hasked : exprReferences o t = referencesIn o (askField .functionBody "body" t) := by
      rcases kind with kind | kind <;> rw [exprReferences_of_kind kind rfl, askedByExpr, kind]
    rw [hasked, functionExpr_references]
    exact function.body.references hbelow

theorem loopVariable_references (t : Tree) (name : String) :
    (loopVariable t name).references = [] := by
  unfold loopVariable
  split <;> rfl

theorem StatementForm.references {o : Oracle} {t : Tree} {ns : List Node}
    (h : StatementForm o t ns) (hbelow : ∀ c ∈ t.children, Traced o c) :
    ns.flatMap Node.references = referencesIn o (askedByStatement t) := by
  cases h with
  | expression kind operand =>
    rw [askedByStatement, kind, List.flatMap_singleton, ← operand.references hbelow,
      Node.references_eq (by simp [Node.kind])]
    simp [Node.children]
  | block kind statements =>
    rw [askedByStatement, kind, List.flatMap_singleton, ← statements.references hbelow,
      Node.references_eq (by simp [Node.kind])]
    rfl
  | declaration kind declarators =>
    have hasked : askedByStatement t = (t.children.filter isDeclarator).map (.declarator, ·) := by
      rcases kind with kind | kind <;> rw [askedByStatement, kind]
    rw [hasked]
    exact declarators.references hbelow
  | empty kind =>
    rw [askedByStatement, kind]
    rfl
  | @«return» n? kind operand =>
    have hvalue := optional_references operand fun c hc => hbelow c (Tree.mem_of_firstNamedChild? hc)
    rw [askedByStatement, kind, List.flatMap_singleton, askOperand, ← hvalue,
      Node.references_eq (by simp [Node.kind])]
    cases n? with
    | none => rfl
    | some n => simp [Node.children]
  | «if» kind condition thenBranch elseBranch =>
    rw [askedByStatement, kind, List.flatMap_singleton, referencesIn_append, referencesIn_append,
      ← condition.references hbelow, ← thenBranch.references hbelow,
      ← elseBranch.references hbelow, Node.references_eq (by simp [Node.kind])]
    rfl
  | «while» kind condition body =>
    rw [askedByStatement, kind, List.flatMap_singleton, referencesIn_append,
      ← condition.references hbelow, ← body.references hbelow,
      Node.references_eq (by simp [Node.kind])]
    simp [Node.children]
  | «do» kind body condition =>
    rw [askedByStatement, kind, List.flatMap_singleton, referencesIn_append,
      ← condition.references hbelow, ← body.references hbelow,
      Node.references_eq (by simp [Node.kind])]
    simp [Node.children]
  | forOf kind sync target name right body token =>
    rw [askedByStatement, kind, List.flatMap_singleton, referencesIn_append,
      ← right.references hbelow, ← body.references hbelow,
      Node.references_eq (by simp [Node.kind])]
    simp [Node.children, loopVariable_references]
  | forIn kind sync target name right body token =>
    rw [askedByStatement, kind, List.flatMap_singleton, referencesIn_append,
      ← right.references hbelow, ← body.references hbelow,
      Node.references_eq (by simp [Node.kind])]
    simp [Node.children, loopVariable_references]
  | «break» kind label =>
    rw [askedByStatement, kind]
    rfl
  | «continue» kind label =>
    rw [askedByStatement, kind]
    rfl
  | «try» kind body handler finalizer =>
    rw [askedByStatement, kind, List.flatMap_singleton, referencesIn_append, referencesIn_append,
      ← body.references hbelow, ← handler.references hbelow, ← finalizer.references hbelow,
      Node.references_eq (by simp [Node.kind])]
    simp [Node.children]
  | throw kind operand =>
    rw [askedByStatement, kind, List.flatMap_singleton, ← operand.references hbelow,
      Node.references_eq (by simp [Node.kind])]
    simp [Node.children]
  | @function name names b kind named function =>
    rw [askedByStatement, kind, List.flatMap_singleton, ← function.body.references hbelow,
      Node.references_eq (by simp [Node.kind])]
    simp [Node.children, functionExpr_references]

theorem single_references (ns : List Node) :
    (single ns).references = ns.flatMap Node.references := by
  unfold single
  split
  · rw [List.flatMap_singleton]
  · exact Node.references_eq (by simp [Node.kind])

theorem plainPropertyName_references {i : Tree.Info} {n : Node}
    (h : plainPropertyName i = .ok n) : n.references = [] ∧ i.kind ≠ .computedPropertyName := by
  unfold plainPropertyName at h
  split at h
  case h_4 => cases h
  all_goals
    next hk =>
      obtain rfl := Except.ok.inj h
      exact ⟨rfl, by rw [hk]; nofun⟩

theorem catchVariable_references {t : Tree} {v? : Option Node} (h : catchVariable t = .ok v?) :
    v?.toList.flatMap Node.references = [] := by
  unfold catchVariable at h
  split at h
  · obtain rfl := Except.ok.inj h
    rfl
  · split at h
    · obtain rfl := Except.ok.inj h
      rfl
    · cases h

theorem PartForm.references {o : Oracle} {t : Tree} {pos : Position} {n : Node}
    (h : PartForm o t pos n) (hbelow : ∀ c ∈ t.children, Traced o c)
    (hexpr : ∀ n, lowerExpr o t = .ok n → n.references = exprReferences o t)
    (hstatement : ∀ ns, lowerStatement o t = .ok ns →
      ns.flatMap Node.references = referencesIn o (askedByStatement t)) :
    n.references = referencesOf o pos t := by
  cases h with
  | value expr =>
    rw [referencesOf_of_readsExpr rfl]
    exact hexpr _ expr
  | spread kind operand =>
    have hreads : readsExpr .element t = false := by simp [readsExpr, kind]
    have hasked : asked o .element t = askOperand .value t := by simp [asked.eq_def, hreads]
    rw [referencesOf_of_asked hreads hasked, ← operand.references hbelow,
      Node.references_eq (by simp [Node.kind])]
    simp [Node.children]
  | element kind expr =>
    rw [referencesOf_of_readsExpr (by simp [readsExpr, kind])]
    exact hexpr _ expr
  | pair kind key value =>
    have hreads : readsExpr .property t = false := by simp [readsExpr, kind]
    have hasked : asked o .property t =
        askField .propertyName "key" t ++ askField .value "value" t := by
      simp [asked.eq_def, hreads, kind]
    rw [referencesOf_of_asked hreads hasked, referencesIn_append, ← key.references hbelow,
      ← value.references hbelow, Node.references_eq (by simp [Node.kind])]
    simp [Node.children]
  | @shorthand n kind expr =>
    have hname : (Node.identifier t.text).references = [] := rfl
    rw [referencesOf_of_readsExpr (by simp [readsExpr, kind]), ← hexpr n expr,
      Node.references_eq (by simp [Node.kind])]
    simp [Node.children, hname]
  | spreadProperty kind operand =>
    have hreads : readsExpr .property t = false := by simp [readsExpr, kind]
    have hasked : asked o .property t = askOperand .value t := by
      simp [asked.eq_def, hreads, kind]
    rw [referencesOf_of_asked hreads hasked, ← operand.references hbelow,
      Node.references_eq (by simp [Node.kind])]
    simp [Node.children]
  | computedName kind operand =>
    have hasked : asked o .propertyName t = askOperand .value t := by
      simp [asked.eq_def, readsExpr, kind]
    rw [referencesOf_of_asked rfl hasked, ← operand.references hbelow,
      Node.references_eq (by simp [Node.kind])]
    simp [Node.children]
  | plainName name =>
    obtain ⟨hnone, hkind⟩ := plainPropertyName_references name
    have hasked : asked o .propertyName t = [] := by
      simp [asked.eq_def, readsExpr, Tree.kind, hkind]
    rw [referencesOf_of_asked rfl hasked, hnone]
    rfl
  | substitution operand =>
    have hasked : asked o .substitution t = askOperand .value t := by
      simp [asked.eq_def, readsExpr]
    rw [referencesOf_of_asked rfl hasked]
    exact operand.references hbelow
  | blockBody kind statements =>
    have hreads : readsExpr .functionBody t = false := by simp [readsExpr, kind]
    have hasked : asked o .functionBody t = t.namedChildren.map (.branch, ·) := by
      simp [asked.eq_def, hreads]
    rw [referencesOf_of_asked hreads hasked, ← statements.references hbelow,
      Node.references_eq (by simp [Node.kind])]
    rfl
  | @exprBody n kind expr =>
    rw [referencesOf_of_readsExpr (by simp [readsExpr, kind]), ← hexpr n expr,
      Node.references_eq (by simp [Node.kind]), Node.children, List.flatMap_singleton,
      Node.references_eq (by simp [Node.kind])]
    simp [Node.children]
  | block statements =>
    have hasked : asked o .block t = t.namedChildren.map (.branch, ·) := by
      simp [asked.eq_def, readsExpr]
    rw [referencesOf_of_asked rfl hasked, ← statements.references hbelow,
      Node.references_eq (by simp [Node.kind])]
    rfl
  | blockLoop kind statements =>
    have hasked : asked o .loopBody t = t.namedChildren.map (.branch, ·) := by
      simp [asked.eq_def, readsExpr, kind]
    rw [referencesOf_of_asked rfl hasked, ← statements.references hbelow,
      Node.references_eq (by simp [Node.kind])]
    rfl
  | @statementLoop ns kind statement =>
    have hasked : asked o .loopBody t = askedByStatement t := by
      simp [asked.eq_def, readsExpr, kind]
    rw [referencesOf_of_asked rfl hasked, ← hstatement ns statement,
      Node.references_eq (by simp [Node.kind])]
    rfl
  | @branch ns statement =>
    have hasked : asked o .branch t = askedByStatement t := by simp [asked.eq_def, readsExpr]
    rw [referencesOf_of_asked rfl hasked, ← hstatement ns statement]
    exact single_references ns
  | elseClause operand =>
    have hasked : asked o .elseClause t = askOperand .branch t := by
      simp [asked.eq_def, readsExpr]
    rw [referencesOf_of_asked rfl hasked]
    exact operand.references hbelow
  | declarator named plain value =>
    have hasked : asked o .declarator t = askField .value "value" t := by
      simp [asked.eq_def, readsExpr]
    rw [referencesOf_of_asked rfl hasked, ← value.references hbelow,
      Node.references_eq (by simp [Node.kind])]
    rfl
  | catchClause target body =>
    have hasked : asked o .catchClause t = askField .block "body" t := by
      simp [asked.eq_def, readsExpr]
    rw [referencesOf_of_asked rfl hasked, ← body.references hbelow,
      Node.references_eq (by simp [Node.kind]), Node.children, List.flatMap_append,
      catchVariable_references target]
    simp
  | finallyClause body =>
    have hasked : asked o .finallyClause t = askField .block "body" t := by
      simp [asked.eq_def, readsExpr]
    rw [referencesOf_of_asked rfl hasked]
    exact body.references hbelow

/-- The references of a lowered node are those of its resolutions, in order and one each. -/
theorem traced (o : Oracle) (t : Tree) : Traced o t := by
  induction t using Tree.induct_below with
  | node t ih =>
    have hbelow : ∀ c ∈ t.children, Traced o c := fun c hc => (ih c hc).1
    have hargs : ∀ c ∈ t.callArguments, Traced o c := Tree.forall_mem_callArguments ih
    have hexpr : ∀ n, lowerExpr o t = .ok n → n.references = exprReferences o t :=
      fun n hn => (lowerExpr_form hn).references hbelow hargs
    have hstatement : ∀ ns, lowerStatement o t = .ok ns →
        ns.flatMap Node.references = referencesIn o (askedByStatement t) :=
      fun ns hns => (lowerStatement_form hns).references hbelow
    have hbranch : referencesOf o .branch t = referencesIn o (askedByStatement t) :=
      referencesOf_of_asked rfl (by simp [asked.eq_def, readsExpr])
    refine ⟨fun pos n hn => (lowerAt_form hn).references hbelow hexpr hstatement, ?_⟩
    intro ns hns
    rw [hstatement ns hns, hbranch]

end Reify
