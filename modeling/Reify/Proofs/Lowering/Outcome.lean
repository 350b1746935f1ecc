/-
Outcomes of lowering, and what a success says of the parts.

A step that succeeds ran on parts that succeeded.  `bind_eq_ok` says so for two steps in a row,
`required_map_eq_ok` and `optional_map_eq_ok` for a part that a node must have or may lack, and
`gather_map_eq_ok` for a list of parts.  The rest reads the outcomes that a node asks of its
children as outcomes of the children themselves.
-/
import Mathlib.Data.List.Forall2
import Mathlib.Data.Option.Basic
import Reify.Lowering.Basic
import Reify.Proofs.Tree.Place

namespace Reify
namespace Lowering

variable {α β : Type}

theorem bind_eq_ok {x : Lowering α} {f : α → Lowering β} {b : β} :
    x >>= f = .ok b ↔ ∃ a, x = .ok a ∧ f a = .ok b := by
  cases x with
  | error e =>
    constructor
    · intro h
      cases h
    · rintro ⟨a, h, -⟩
      cases h
  | ok a =>
    constructor
    · intro h
      exact ⟨a, rfl, h⟩
    · rintro ⟨c, h, hf⟩
      obtain rfl := Except.ok.inj h
      exact hf

theorem pure_eq_ok {a b : α} : (pure a : Lowering α) = .ok b ↔ a = b := by
  constructor
  · intro h
    exact Except.ok.inj h
  · rintro rfl
    rfl

theorem required_some (i : Tree.Info) (r : Lowering α) : required i (some r) = r := rfl

theorem required_map_eq_ok {i : Tree.Info} {c? : Option Tree} {f : Tree → Lowering α} {a : α} :
    required i (c?.map f) = .ok a ↔ ∃ c, c? = some c ∧ f c = .ok a := by
  cases c? with
  | none =>
    constructor
    · intro h
      cases h
    · rintro ⟨c, h, -⟩
      cases h
  | some c =>
    constructor
    · intro h
      exact ⟨c, rfl, h⟩
    · rintro ⟨d, h, hf⟩
      obtain rfl := Option.some.inj h
      exact hf

theorem optional_map_eq_ok {c? : Option Tree} {f : Tree → Lowering α} {a? : Option α} :
    optional (c?.map f) = .ok a? ↔ Option.Rel (fun c a => f c = .ok a) c? a? := by
  cases c? with
  | none =>
    constructor
    · intro h
      obtain rfl := Except.ok.inj h
      exact .none
    · rintro ⟨⟩
      rfl
  | some c =>
    rw [Option.map_some, optional, bind_eq_ok]
    constructor
    · rintro ⟨a, hf, h⟩
      obtain rfl := pure_eq_ok.mp h
      exact .some hf
    · rintro (⟨hf⟩ | ⟨⟩)
      exact ⟨_, hf, rfl⟩

theorem forall_of_forall₂ {R : Tree → α → Prop} {P : α → Prop} {ts : List Tree} {as : List α}
    (h : List.Forall₂ R ts as) (hP : ∀ t ∈ ts, ∀ a, R t a → P a) : ∀ a ∈ as, P a := by
  induction h with
  | nil => exact List.forall_mem_nil P
  | cons hhead _ ih =>
    rw [List.forall_mem_cons]
    exact ⟨hP _ List.mem_cons_self _ hhead,
      ih fun t ht a hta => hP t (List.mem_cons_of_mem _ ht) a hta⟩

theorem map_eq_map_ok_iff {f : Tree → Lowering α} {ts : List Tree} {as : List α} :
    ts.map f = as.map .ok ↔ List.Forall₂ (fun t a => f t = .ok a) ts as := by
  induction ts generalizing as with
  | nil => cases as <;> simp
  | cons t ts ih =>
    cases as with
    | nil => simp
    | cons a as => rw [List.map_cons, List.map_cons, List.cons.injEq, ih, List.forall₂_cons]

theorem gather_map_eq_ok {f : Tree → Lowering α} {ts : List Tree} {as : List α} :
    gather (ts.map f) = .ok as ↔ List.Forall₂ (fun t a => f t = .ok a) ts as := by
  rw [gather_eq_ok_iff, map_eq_map_ok_iff]

end Lowering

open Lowering

variable {o : Oracle}

/-! ## The children that a node asks -/

theorem lowerAt_value (o : Oracle) (t : Tree) : lowerAt o .value t = lowerExpr o t := by
  obtain ⟨info, children⟩ := t
  simp only [lowerAt, lowerChildren, if_pos, List.head?_cons, required_some]

theorem head?_lowerChildren (pos : Position) (p : Tree → Bool) (ts : List Tree) :
    (lowerChildren o pos p ts).head? = (ts.find? p).map (lowerAt o pos) := by
  rw [lowerChildren_eq, List.head?_map, List.head?_filter]

theorem getLast?_lowerChildren (pos : Position) (p : Tree → Bool) (ts : List Tree) :
    (lowerChildren o pos p ts).getLast? = (ts.filter p).getLast?.map (lowerAt o pos) := by
  rw [lowerChildren_eq, List.getLast?_map]

theorem lowerFunction_eq_assemble (o : Oracle) (flavor : FunctionFlavor) (drop : Nat) (t : Tree) :
    lowerFunction o flavor drop t =
      Function.assemble flavor drop t
        ((t.childByField? "body").map (lowerAt o .functionBody)) := by
  rw [lowerFunction, head?_lowerChildren]
  rfl

theorem assemble_plain {flavor : FunctionFlavor} {drop : Nat} {t : Tree}
    (hkind : t.kind = .arrowFunction ∨ t.kind = .functionExpression ∨
      t.kind = .functionDeclaration)
    (hasync : t.hasToken "async" = false) (body : Lowering Node) :
    Function.assemble flavor drop t (some body) = do
      let names ← Function.parameterNames t
      let body ← body
      return flavor.build ((names.drop drop).map .parameterDecl) body := by
  unfold Function.assemble
  rcases hkind with hkind | hkind | hkind <;>
    simp only [hkind, hasync, Bool.false_eq_true, if_false]

namespace Tree

theorem firstNamedChild?_eq (t : Tree) : t.firstNamedChild? = t.children.find? isOperand :=
  List.head?_filter

theorem mem_of_childByField? {t c : Tree} {name : String} (h : t.childByField? name = some c) :
    c ∈ t.children :=
  List.mem_of_find?_eq_some h

theorem mem_of_callee? {t c : Tree} (h : t.callee? = some c) : c ∈ t.children := by
  rw [callee?, Option.bind_eq_some_iff] at h
  obtain ⟨name, -, h⟩ := h
  exact mem_of_childByField? h

theorem mem_of_firstNamedChild? {t c : Tree} (h : t.firstNamedChild? = some c) :
    c ∈ t.children := by
  rw [firstNamedChild?_eq] at h
  exact List.mem_of_find?_eq_some h

theorem mem_of_lastNamedChild? {t c : Tree} (h : t.lastNamedChild? = some c) :
    c ∈ t.children :=
  List.mem_of_mem_filter (List.mem_of_getLast? h)

theorem mem_of_mem_namedChildren {t c : Tree} (h : c ∈ t.namedChildren) : c ∈ t.children :=
  List.mem_of_mem_filter h

theorem exists_list_of_mem_callArguments {t c : Tree} (h : c ∈ t.callArguments) :
    ∃ list ∈ t.children, c ∈ list.children := by
  unfold callArguments at h
  split at h
  · next list hlist =>
    obtain ⟨-, j, -, hj⟩ := argumentList?_eq_some hlist
    exact ⟨list, List.mem_of_getElem? hj, mem_of_mem_namedChildren h⟩
  · cases h

theorem Everywhere.argument {P : Tree → Prop} {t c : Tree} (h : t.Everywhere P)
    (hc : c ∈ t.callArguments) : c.Everywhere P := by
  obtain ⟨list, hlist, hc⟩ := exists_list_of_mem_callArguments hc
  exact (h.child hlist).child hc

theorem forall_mem_callArguments {P : Tree → Prop} {t : Tree}
    (h : ∀ c ∈ t.children, P c ∧ ∀ d ∈ c.children, P d) : ∀ c ∈ t.callArguments, P c := by
  intro c hc
  obtain ⟨list, hlist, hc⟩ := exists_list_of_mem_callArguments hc
  exact (h list hlist).2 c hc

end Tree

theorem requiredField_eq_ok {t c : Tree} {name : String} :
    requiredField t name = .ok c ↔ t.childByField? name = some c := by
  unfold requiredField
  split
  · next d hd =>
    rw [hd]
    constructor
    · intro h
      rw [Except.ok.inj h]
    · intro h
      rw [Option.some.inj h]
  · next hd =>
    rw [hd]
    constructor <;> intro h <;> cases h

theorem rejectOptionalChain_eq_ok {t : Tree} {u : Unit} :
    rejectOptionalChain t = .ok u ↔ isOptionalChain t = false := by
  unfold rejectOptionalChain
  split
  · next h =>
    rw [h]
    constructor <;> intro h <;> cases h
  · next h =>
    rw [Bool.not_eq_true] at h
    exact ⟨fun _ => h, fun _ => rfl⟩

theorem rejectTaggedTemplate_eq_ok {t : Tree} {u : Unit} :
    rejectTaggedTemplate t = .ok u ↔
      ∃ list, t.childByField? "arguments" = some list ∧ list.kind = .arguments := by
  unfold rejectTaggedTemplate
  split
  · next list hlist =>
    rw [hlist]
    split
    · next hkind => exact ⟨fun _ => ⟨list, rfl, hkind⟩, fun _ => rfl⟩
    · next hkind =>
      constructor
      · intro h
        cases h
      · rintro ⟨_, heq, h⟩
        rw [Option.some.inj heq] at hkind
        exact absurd h hkind
  · next hlist =>
    rw [hlist]
    constructor
    · intro h
      cases h
    · rintro ⟨_, h, -⟩
      cases h

end Reify
