/-
When reference thunks are closed over the reflected function.

A reference keeps the text of the access it is made from, to be evaluated where the function's
parameters and variables no longer exist.  Declared types are looked up by name and no scope is
kept, so an access may begin with a name that the function binds anew, and its operands may
mention one.  `references_closed_iff` says that these are the only ways in which a thunk is not
closed, and that there is one access for each reference.
-/
import Reify.Proofs.Lowering.References
import Reify.Types.Declared

namespace Reify

open Lowering

/-! ## The head of a typed access -/

namespace Declared

theorem head?_typesIn (d : Declared) (p : Tree → Bool) (ts : List Tree) :
    (d.typesIn p ts).head?.join = (ts.find? p).bind d.typeOf := by
  rw [typesIn_eq, List.head?_map, List.head?_filter]
  cases ts.find? p <;> rfl

theorem getLast?_typesIn (d : Declared) (p : Tree → Bool) (ts : List Tree) :
    (d.typesIn p ts).getLast?.join = (ts.filter p).getLast?.bind d.typeOf := by
  rw [typesIn_eq, List.getLast?_map]
  cases (ts.filter p).getLast? <;> rfl

/-- The type of an expression is computed from the type of its head child. -/
theorem typeOf_headChild? {d : Declared} {t c : Tree} {ty : Ty} (h : d.typeOf t = some ty)
    (hc : t.headChild? = some c) : ∃ head, d.typeOf c = some head := by
  obtain ⟨info, children⟩ := t
  have found {name : String} {head : Ty}
      (hhead : (d.typesIn (Tree.inField name) children).head?.join = some head)
      (hc : Tree.childByField? (.node info children) name = some c) :
      ∃ head, d.typeOf c = some head := by
    have hfind : children.find? (Tree.inField name) = some c := hc
    rw [head?_typesIn, hfind] at hhead
    exact ⟨head, hhead⟩
  have foundOperand {head : Ty}
      (hhead : (d.typesIn Tree.isOperand children).head?.join = some head)
      (hc : Tree.firstNamedChild? (.node info children) = some c) :
      ∃ head, d.typeOf c = some head := by
    have hfind : children.find? Tree.isOperand = some c := by
      rw [Tree.firstNamedChild?_eq] at hc
      exact hc
    rw [head?_typesIn, hfind] at hhead
    exact ⟨head, hhead⟩
  unfold Tree.headChild? at hc
  unfold typeOf at h
  simp only [Tree.kind, Tree.info] at hc h
  split at hc
  case h_1 hk =>
    simp only [hk] at h
    obtain ⟨head, hhead, -⟩ := Option.bind_eq_some_iff.mp h
    exact found hhead hc
  case h_2 hk =>
    simp only [hk] at h
    obtain ⟨head, hhead, -⟩ := Option.bind_eq_some_iff.mp h
    exact found hhead hc
  case h_3 hk =>
    simp only [hk] at h
    obtain ⟨head, hhead, -⟩ := Option.bind_eq_some_iff.mp h
    exact found hhead hc
  case h_4 hk =>
    simp only [hk] at h
    exact found h hc
  case h_5 hk | h_6 hk | h_7 hk | h_8 hk =>
    simp only [hk] at h
    exact foundOperand h hc
  case h_9 hk =>
    simp only [hk] at h
    have hlast : (children.filter Tree.isOperand).getLast? = some c := hc
    rw [getLast?_typesIn, hlast] at h
    exact ⟨ty, h⟩
  case h_10 => cases hc

theorem typeOf_of_isName {d : Declared} {t : Tree} (h : t.kind.isName = true) :
    d.typeOf t = d.nameType t.text := by
  obtain ⟨info, children⟩ := t
  unfold Tree.Kind.isName at h
  split at h
  case h_3 => cases h
  all_goals
    next hk =>
      have hkind := show info.kind = _ from hk
      unfold typeOf
      simp only [hkind]
      rfl

/-- An expression with a type begins with a declared name, if it begins with a name. -/
theorem nameType_of_head {d : Declared} {t : Tree} {x : String} {ty : Ty}
    (h : d.typeOf t = some ty) (hx : Tree.Head x t) : (d.nameType x).isSome = true := by
  induction hx generalizing ty with
  | name kind text =>
    rw [typeOf_of_isName kind] at h
    rw [text, h]
    rfl
  | step child _ ih =>
    obtain ⟨head, hhead⟩ := typeOf_headChild? h child
    exact ih hhead

end Declared

/-! ## Closed thunks -/

namespace Resolution

/-- No name in the access is bound around it, so it can be evaluated outside the function. -/
def Closed (r : Resolution) : Prop := ∀ x ∈ r.access.identifiers, x ∉ r.bound

/-- The access does not begin with a declared name that the function binds anew. -/
def HeadFree (d : Declared) (r : Resolution) : Prop :=
  ∀ x, Tree.Head x r.access → (d.nameType x).isSome = true → x ∉ r.bound

/-- No operand of the access, such as an index or an argument, mentions a name of the
function. -/
def OperandsFree (r : Resolution) : Prop := ∀ x, Tree.Operand x r.access → x ∉ r.bound

end Resolution

theorem isResolved_of_mem {o : Oracle} {pos : Position} {t : Tree} :
    ∀ r ∈ resolutions o pos t, ∃ p, isResolved o p r.access = true := by
  induction t using Tree.induct_below generalizing pos with
  | node t ih =>
    intro r hr
    rw [resolutions_eq] at hr
    split at hr
    · next hresolved =>
      obtain rfl := List.mem_singleton.mp hr
      exact ⟨pos, hresolved⟩
    · obtain ⟨⟨p, c⟩, hasked, hr⟩ := List.mem_flatMap.mp hr
      obtain ⟨s, hs, rfl⟩ := List.mem_map.mp hr
      rcases asked_below _ hasked with hc | ⟨list, hlist, hc⟩
      · exact (ih c hc).1 s hs
      · exact (ih list hlist).2 c hc s hs

def reflectedResolutions (o : Oracle) (t : Tree) : List Resolution :=
  (askField .functionBody "body" t).flatMap fun x =>
    (resolutions o x.1 x.2).map (Resolution.within t.binds)

theorem typeOf_of_mem {d : Declared} {t : Tree} {r : Resolution}
    (hr : r ∈ reflectedResolutions d.oracle t) : ∃ ty, d.typeOf r.access = some ty := by
  obtain ⟨⟨pos, c⟩, -, hr⟩ := List.mem_flatMap.mp hr
  obtain ⟨s, hs, rfl⟩ := List.mem_map.mp hr
  obtain ⟨p, hresolved⟩ := isResolved_of_mem s hs
  rw [isResolved, Bool.and_eq_true] at hresolved
  obtain ⟨n, hn⟩ := Option.isSome_iff_exists.mp hresolved.2
  unfold Oracle.resolveReference? at hn
  split at hn
  · next kind hkind =>
    obtain ⟨ty, hty, -⟩ := Option.bind_eq_some_iff.mp hkind
    exact ⟨ty, hty⟩
  · cases hn

theorem closed_iff {d : Declared} {t : Tree} {r : Resolution}
    (hr : r ∈ reflectedResolutions d.oracle t) :
    r.Closed ↔ r.HeadFree d ∧ r.OperandsFree := by
  obtain ⟨ty, hty⟩ := typeOf_of_mem hr
  constructor
  · intro h
    refine ⟨fun x hx _ => ?_, fun x hx => ?_⟩
    · exact h x (Tree.mem_identifiers_iff.mpr (.inl hx))
    · exact h x (Tree.mem_identifiers_iff.mpr (.inr hx))
  · rintro ⟨hhead, hoperands⟩ x hx
    rcases Tree.mem_identifiers_iff.mp hx with hx | hx
    · exact hhead x hx (Declared.nameType_of_head hty hx)
    · exact hoperands x hx

/-- The references of a reflected function are made from the accesses that lowering resolves,
in order and one each.  All thunks are closed over the function if and only if no access begins
with a declared name that the function binds anew, and no operand of one mentions a name that
the function binds. -/
theorem references_closed_iff (d : Declared) (drop : Nat) (t : Tree) {parameters : List Node}
    {body : Node} (h : lowerReflected d.oracle drop t = .functionDecl parameters body) :
    (Node.functionDecl parameters body).references =
        (reflectedResolutions d.oracle t).map Resolution.reference ∧
      ((∀ r ∈ reflectedResolutions d.oracle t, r.Closed) ↔
        ∀ r ∈ reflectedResolutions d.oracle t, r.HeadFree d ∧ r.OperandsFree) := by
  refine ⟨?_, forall₂_congr fun r hr => closed_iff hr⟩
  obtain ⟨info, children⟩ := t
  cases hlowered : lowerFunction d.oracle .declaration drop (.node info children) with
  | error f =>
    rw [lowerReflected, hlowered] at h
    cases f <;> cases h
  | ok n =>
    rw [lowerReflected, hlowered] at h
    obtain rfl : n = .functionDecl parameters body := h
    obtain ⟨names, b, hform, hbuild⟩ := assemble_function_iff.mp hlowered
    have hbody := hform.body.references fun c _ => traced d.oracle c
    rw [hbuild, build_references, hbody]
    rw [referencesIn, reflectedResolutions, List.map_flatMap]
    simp only [List.map_map]
    rfl

def tableTypes : Declared where
  bindings := [("table", .name "Table")]
  types := [("Table", { properties := [("kind", .literal "Table")] })]

def tableName (field : String) (b : UInt32) : Tree :=
  .node ⟨.identifier, some field, true, ⟨b, b + 5⟩, "table"⟩ []

/-- The tree of `(table) => table`. -/
def tableFunction : Tree :=
  .node ⟨.arrowFunction, none, true, ⟨0, 16⟩, "(table) => table"⟩
    [.node ⟨.formalParameters, some "parameters", true, ⟨0, 7⟩, "(table)"⟩
        [.node ⟨.requiredParameter, none, true, ⟨1, 6⟩, "table"⟩ [tableName "pattern" 1]],
      tableName "body" 11]

theorem tableFunction_not_closed :
    lowerReflected tableTypes.oracle 0 tableFunction =
        .functionDecl [.parameterDecl "table"]
          (.blockStmt [.returnStmt (.referenceExpr "table" "table")]) ∧
      ¬∀ r ∈ reflectedResolutions tableTypes.oracle tableFunction, r.Closed := by
  have hlowered : lowerReflected tableTypes.oracle 0 tableFunction =
      .functionDecl [.parameterDecl "table"]
        (.blockStmt [.returnStmt (.referenceExpr "table" "table")]) := by rfl
  have hresolutions : reflectedResolutions tableTypes.oracle tableFunction =
      [⟨tableName "body" 11, ["table"]⟩] := by
    have hbody : resolutions tableTypes.oracle .functionBody (tableName "body" 11) =
        [⟨tableName "body" 11, []⟩] := by
      rw [resolutions_eq, if_pos (by decide)]
    have hasked : askField .functionBody "body" tableFunction =
        [(.functionBody, tableName "body" 11)] := by rfl
    rw [reflectedResolutions, hasked, List.flatMap_singleton, hbody]
    rfl
  obtain ⟨-, hclosed⟩ := references_closed_iff tableTypes 0 tableFunction hlowered
  refine ⟨hlowered, fun hall => ?_⟩
  rw [hclosed, hresolutions] at hall
  have hhead : Tree.Head "table" (tableName "body" 11) := .name rfl rfl
  exact (hall _ (List.mem_singleton_self _)).1 "table" hhead rfl (List.mem_singleton_self _)

end Reify
