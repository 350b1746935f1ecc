/-
Places in a tree.

A place is the list of child indices that lead from the root to a node, so two nodes with the
same kind, span and text are still told apart.  `argumentPlace?` is where an invocation keeps
one of its arguments: two steps down, through its argument list.
-/
import Reify.Tree.Basic

namespace Reify
namespace Tree

@[elab_as_elim]
theorem induct {motive : Tree → Prop}
    (node : ∀ info children, (∀ c ∈ children, motive c) → motive (.node info children)) :
    ∀ t, motive t
  | .node info children => node info children fun c _ => induct node c

/-- Induction that looks two levels down, as an argument is a child of an argument list. -/
theorem induct_below {motive : Tree → Prop}
    (node : ∀ t : Tree, (∀ c ∈ t.children, motive c ∧ ∀ d ∈ c.children, motive d) → motive t)
    (t : Tree) : motive t := by
  have both : motive t ∧ ∀ c ∈ t.children, motive c := by
    induction t using induct with
    | node info children ih => exact ⟨node _ ih, fun c hc => (ih c hc).1⟩
  exact both.1

abbrev Place := List Nat

def at? : Tree → Place → Option Tree
  | t, [] => some t
  | t, i :: p => t.children[i]?.bind fun c => c.at? p

@[simp] theorem at?_nil (t : Tree) : t.at? [] = some t := rfl

theorem at?_cons (t : Tree) (i : Nat) (p : Place) :
    t.at? (i :: p) = t.children[i]?.bind fun c => c.at? p := rfl

theorem at?_cons_of_child {t c : Tree} {i : Nat} (h : t.children[i]? = some c) (p : Place) :
    t.at? (i :: p) = c.at? p := by
  rw [at?_cons, h, Option.bind_some]

theorem at?_append (t : Tree) (p q : Place) : t.at? (p ++ q) = (t.at? p).bind fun n => n.at? q := by
  induction p generalizing t with
  | nil => rfl
  | cons i p ih =>
    rw [List.cons_append, at?_cons, at?_cons]
    cases t.children[i]? with
    | none => rfl
    | some c => exact ih c

/-- `P` holds at every node of the tree. -/
def Everywhere (P : Tree → Prop) (t : Tree) : Prop := ∀ p n, t.at? p = some n → P n

theorem Everywhere.here {P : Tree → Prop} {t : Tree} (h : t.Everywhere P) : P t := h [] t rfl

theorem Everywhere.child {P : Tree → Prop} {t c : Tree} (h : t.Everywhere P)
    (hc : c ∈ t.children) : c.Everywhere P := by
  intro p n hn
  obtain ⟨i, hi⟩ := List.mem_iff_getElem?.mp hc
  exact h (i :: p) n (by rw [at?_cons_of_child hi, hn])

theorem Everywhere.at? {P : Tree → Prop} {t n : Tree} (h : t.Everywhere P) {p : Place}
    (hn : t.at? p = some n) : n.Everywhere P := by
  intro q m hm
  exact h (p ++ q) m (by rw [at?_append, hn, Option.bind_some, hm])

theorem everywhere_node {P : Tree → Prop} {info : Info} {children : List Tree} :
    (node info children).Everywhere P ↔
      P (node info children) ∧ ∀ c ∈ children, c.Everywhere P := by
  constructor
  · intro h
    exact ⟨h.here, fun c hc => h.child hc⟩
  · rintro ⟨hroot, hbelow⟩ p n hn
    cases p with
    | nil =>
      rw [at?_nil, Option.some.injEq] at hn
      exact hn ▸ hroot
    | cons i p =>
      rw [at?_cons, Option.bind_eq_some_iff] at hn
      obtain ⟨c, hi, hn⟩ := hn
      exact hbelow c (List.mem_of_getElem? hi) p n hn

section Decide

variable (P : Tree → Prop) [DecidablePred P]

mutual

def holdsEverywhere : Tree → Bool
  | node info children => decide (P (node info children)) && holdsInEach children

def holdsInEach : List Tree → Bool
  | [] => true
  | t :: ts => holdsEverywhere t && holdsInEach ts

end

theorem holdsInEach_eq (ts : List Tree) : holdsInEach P ts = ts.all (holdsEverywhere P) := by
  induction ts with
  | nil => rfl
  | cons t ts ih => rw [holdsInEach, ih, List.all_cons]

theorem holdsEverywhere_iff {t : Tree} : holdsEverywhere P t = true ↔ t.Everywhere P := by
  induction t using induct with
  | node info children ih =>
    rw [everywhere_node, holdsEverywhere, Bool.and_eq_true, decide_eq_true_iff, holdsInEach_eq,
      List.all_eq_true]
    exact and_congr_right fun _ => forall₂_congr ih

instance (t : Tree) : Decidable (t.Everywhere P) := decidable_of_iff _ (holdsEverywhere_iff P)

end Decide

/-! ## Where arguments stand -/

/-- The index among all nodes of operand number `i`. -/
def operandIndex? : List Tree → Nat → Option Nat
  | [], _ => none
  | t :: ts, 0 => if t.isOperand then some 0 else (operandIndex? ts 0).map (· + 1)
  | t :: ts, i + 1 => (operandIndex? ts (if t.isOperand then i else i + 1)).map (· + 1)

theorem operandIndex?_bind (ts : List Tree) (i : Nat) :
    ((operandIndex? ts i).bind fun k => ts[k]?) = (ts.filter isOperand)[i]? := by
  induction ts generalizing i with
  | nil => rfl
  | cons t ts ih =>
    have shifted (j : Nat) : ((operandIndex? ts j).map (· + 1)).bind (fun k => (t :: ts)[k]?) =
        (ts.filter isOperand)[j]? := by
      rw [← ih, Option.bind_map]
      rfl
    by_cases ht : t.isOperand
    · rw [List.filter_cons_of_pos ht]
      cases i with
      | zero => rw [operandIndex?, if_pos ht]; rfl
      | succ i => rw [operandIndex?, if_pos ht]; exact shifted i
    · rw [List.filter_cons_of_neg ht]
      cases i with
      | zero => rw [operandIndex?, if_neg ht]; exact shifted 0
      | succ i => rw [operandIndex?, if_neg ht]; exact shifted (i + 1)

/-- The place, below an invocation, of argument number `i`. -/
def argumentPlace? (t : Tree) (i : Nat) : Option Place := do
  let list ← t.argumentList?
  let j ← t.children.findIdx? (inField "arguments")
  let k ← operandIndex? list.children i
  some [j, k]

theorem argumentPlace?_eq_some_iff {t : Tree} {i : Nat} {r : Place} :
    t.argumentPlace? i = some r ↔
      ∃ list j k, t.argumentList? = some list ∧
        t.children.findIdx? (inField "arguments") = some j ∧
        operandIndex? list.children i = some k ∧ r = [j, k] := by
  simp only [argumentPlace?, Option.bind_eq_bind, Option.bind_eq_some_iff, Option.some.injEq]
  constructor
  · rintro ⟨list, hl, j, hj, k, hk, rfl⟩
    exact ⟨list, j, k, hl, hj, hk, rfl⟩
  · rintro ⟨list, j, k, hl, hj, hk, rfl⟩
    exact ⟨list, hl, j, hj, k, hk, rfl⟩

/-- The argument list is an `arguments` node, and it is the first child in its field. -/
theorem argumentList?_eq_some {t list : Tree} (h : t.argumentList? = some list) :
    list.kind = .arguments ∧ ∃ j, t.children.findIdx? (inField "arguments") = some j ∧
      t.children[j]? = some list := by
  unfold argumentList? childByField? at h
  split at h
  · split at h
    case h_1 found hfound =>
      split at h
      case isTrue hkind =>
        obtain rfl : found = list := by simpa using h
        refine ⟨hkind, ?_⟩
        rw [List.find?_eq_some_iff_getElem] at hfound
        obtain ⟨hf, j, hj, hget, hbefore⟩ := hfound
        refine ⟨j, ?_, by rw [List.getElem?_eq_getElem hj, hget]⟩
        rw [List.findIdx?_eq_some_iff_getElem]
        exact ⟨hj, by rw [hget]; exact hf, fun i hi => by simpa using hbefore i hi⟩
      case isFalse => cases h
    case h_2 => cases h
  · cases h

/-- Each argument stands at its place, and there is no place for one that is not supplied. -/
theorem argumentPlace?_bind (t : Tree) (i : Nat) :
    ((t.argumentPlace? i).bind fun r => t.at? r) = t.callArguments[i]? := by
  unfold argumentPlace? callArguments
  cases hl : t.argumentList? with
  | none => rfl
  | some list =>
    obtain ⟨-, j, hj, hget⟩ := argumentList?_eq_some hl
    rw [hj]
    simp only [Option.bind_eq_bind, Option.bind_some, namedChildren]
    rw [← operandIndex?_bind]
    cases operandIndex? list.children i with
    | none => rfl
    | some k =>
      simp only [Option.bind_some, at?_cons, hget]
      cases list.children[k]? <;> rfl

end Tree
end Reify
