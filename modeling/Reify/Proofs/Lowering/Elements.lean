/-
Array literals and the positions of their elements.

The commas of an array literal cut it into positions, and a position that holds no element is an
elision.  Lowering takes the elements and passes over the positions (`lowerExpr_array`).  So the
items stand where the elements stand exactly if no position is empty, and otherwise there are
fewer items than positions, one for each elision.
-/
import Reify.Proofs.Lowering.Outcome

namespace Reify

open Lowering

namespace Tree

/-- Whether the tree is the token that separates elements. -/
def isComma (t : Tree) : Bool := !t.named && t.text == ","

def withoutEmptyLast {α : Type} (pieces : List (List α)) : List (List α) :=
  match pieces.getLast? with
  | some [] => pieces.dropLast
  | _ => pieces

/-- The elements at each position of an array literal.  What follows the last comma is a
position only if an element stands there. -/
def elementPositions (t : Tree) : List (List Tree) :=
  withoutEmptyLast ((t.children.splitOnP isComma).map (List.filter isOperand))

-- A comma after the last element adds no position, and one before it does.
example : withoutEmptyLast [[1], [], [2], []] = [[1], [], [2]] := rfl

theorem flatten_splitOnP {α : Type} (p : α → Bool) (xs : List α) :
    (xs.splitOnP p).flatten = xs.filter fun x => !p x := by
  induction xs with
  | nil => rfl
  | cons x xs ih =>
    rw [List.splitOnP_cons_eq_if_modifyHead, List.filter_cons]
    cases hx : p x with
    | true => exact ih
    | false =>
      obtain ⟨y, ys, hcut⟩ := List.exists_cons_of_ne_nil (List.splitOnP_ne_nil p xs)
      rw [hcut, List.flatten_cons] at ih
      rw [hcut]
      simp [← ih]

theorem flatten_withoutEmptyLast {α : Type} (pieces : List (List α)) :
    (withoutEmptyLast pieces).flatten = pieces.flatten := by
  unfold withoutEmptyLast
  split
  · next hlast =>
    have hsplit := List.dropLast_append_getLast? _ hlast
    conv_rhs => rw [← hsplit, List.flatten_append, List.flatten_singleton, List.append_nil]
  · rfl

theorem isComma_eq_false_of_isOperand {t : Tree} (h : t.isOperand = true) : t.isComma = false := by
  rw [isOperand, Bool.and_eq_true] at h
  rw [isComma, h.1]
  rfl

theorem flatten_elementPositions (t : Tree) : t.elementPositions.flatten = t.namedChildren := by
  rw [elementPositions, flatten_withoutEmptyLast, ← List.filter_flatten, flatten_splitOnP,
    List.filter_filter, namedChildren]
  refine List.filter_congr fun c _ => ?_
  cases hc : c.isOperand with
  | true => rw [isComma_eq_false_of_isOperand hc, Bool.true_and, Bool.not_false]
  | false => rw [Bool.false_and]

end Tree

variable {o : Oracle} {t : Tree}

/-- An array literal lowers to the outcomes of its elements, whatever position they stand at. -/
theorem lowerExpr_array (o : Oracle) (hkind : t.kind = .array) :
    lowerExpr o t = (gather (t.elementPositions.flatten.map (lowerElement o))).map
      .arrayLiteralExpr := by
  rw [Tree.flatten_elementPositions]
  obtain ⟨info, children⟩ := t
  have hinfo : info.kind = .array := hkind
  unfold lowerExpr
  simp only [hinfo]
  rw [lowerChildren_eq]
  rfl

/-! ## Items and positions -/

section Positions

variable {ps : List (List Tree)} {items : List Node}

theorem length_flatten_add_countP (h : ∀ p ∈ ps, p.length ≤ 1) :
    ps.flatten.length + ps.countP List.isEmpty = ps.length := by
  induction ps with
  | nil => rfl
  | cons p ps ih =>
    rw [List.forall_mem_cons] at h
    have hrest := ih h.2
    have hhead : p.length + (if p.isEmpty then 1 else 0) = 1 := by
      cases p with
      | nil => rfl
      | cons e p =>
        have hle := h.1
        rw [List.length_cons] at hle ⊢
        rw [List.isEmpty_cons, if_neg Bool.false_ne_true]
        omega
    rw [List.flatten_cons, List.length_append, List.countP_cons, List.length_cons]
    omega

/-- Each item is what the one element at its position lowers to. -/
def AtPositions (o : Oracle) (ps : List (List Tree)) (items : List Node) : Prop :=
  List.Forall₂ (fun p item => ∃ e, p = [e] ∧ lowerElement o e = .ok item) ps items

theorem AtPositions.length_eq_one (h : AtPositions o ps items) : ∀ p ∈ ps, p.length = 1 := by
  induction h with
  | nil => exact List.forall_mem_nil _
  | cons head _ ih =>
    obtain ⟨e, rfl, -⟩ := head
    exact List.forall_mem_cons.mpr ⟨rfl, ih⟩

theorem atPositions_of_flatten
    (h : List.Forall₂ (fun e item => lowerElement o e = .ok item) ps.flatten items)
    (hone : ∀ p ∈ ps, p.length = 1) : AtPositions o ps items := by
  induction ps generalizing items with
  | nil =>
    cases h
    exact .nil
  | cons p ps ih =>
    rw [List.forall_mem_cons] at hone
    obtain ⟨e, rfl⟩ := List.length_eq_one_iff.mp hone.1
    rw [List.flatten_cons, List.singleton_append] at h
    cases h with
    | cons head tail => exact .cons ⟨e, rfl, head⟩ (ih tail hone.2)

end Positions

/-- What an array literal lowers to has the elements in order.  Each item is what the one element
at its position lowers to if and only if there is one at each.  Of an array in which no
position holds two, the items and the elisions together are as many as the positions. -/
theorem array_items_at_positions_iff {n : Node} (hkind : t.kind = .array)
    (h : lowerExpr o t = .ok n) :
    ∃ items, n = .arrayLiteralExpr items ∧
      List.Forall₂ (fun e item => lowerElement o e = .ok item) t.elementPositions.flatten items ∧
      (AtPositions o t.elementPositions items ↔ ∀ p ∈ t.elementPositions, p.length = 1) ∧
      ((∀ p ∈ t.elementPositions, p.length ≤ 1) →
        items.length + t.elementPositions.countP List.isEmpty = t.elementPositions.length) := by
  rw [lowerExpr_array o hkind] at h
  cases hgather : gather (t.elementPositions.flatten.map (lowerElement o)) with
  | error f =>
    rw [hgather] at h
    cases h
  | ok items =>
    rw [hgather] at h
    have hitems := gather_map_eq_ok.mp hgather
    refine ⟨items, (Except.ok.inj h).symm, hitems, ?_, fun hle => ?_⟩
    · exact ⟨AtPositions.length_eq_one, atPositions_of_flatten hitems⟩
    · rw [← hitems.length_eq]
      exact length_flatten_add_countP hle

/-- The tree of `[1, , 2]`. -/
def elidedArray : Tree :=
  .node ⟨.array, some "body", true, ⟨18, 26⟩, "[1, , 2]"⟩
    [.node ⟨.unknown "[", none, false, ⟨18, 19⟩, "["⟩ [],
      .node ⟨.numberLiteral, none, true, ⟨19, 20⟩, "1"⟩ [],
      .node ⟨.unknown ",", none, false, ⟨20, 21⟩, ","⟩ [],
      .node ⟨.unknown ",", none, false, ⟨22, 23⟩, ","⟩ [],
      .node ⟨.numberLiteral, none, true, ⟨24, 25⟩, "2"⟩ [],
      .node ⟨.unknown "]", none, false, ⟨25, 26⟩, "]"⟩ []]

/-- The item for the third position is the second one. -/
theorem elidedArray_shortened :
    elidedArray.elementPositions.length = 3 ∧
      ∃ items, lowerExpr .noTypes elidedArray = .ok (.arrayLiteralExpr items) ∧
        items.length = 2 ∧ ¬AtPositions .noTypes elidedArray.elementPositions items := by
  have hlowered : lowerExpr .noTypes elidedArray =
      .ok (.arrayLiteralExpr [.numberLiteralExpr "1", .numberLiteralExpr "2"]) := rfl
  have hlengths : elidedArray.elementPositions.map List.length = [1, 0, 1] := rfl
  have helision : ∃ p ∈ elidedArray.elementPositions, p.length = 0 := by
    rw [← List.mem_map, hlengths]
    exact List.mem_cons_of_mem 1 List.mem_cons_self
  obtain ⟨items, hitems, -, hiff, -⟩ := array_items_at_positions_iff rfl hlowered
  obtain rfl := Node.arrayLiteralExpr.inj hitems
  refine ⟨congrArg List.length hlengths, _, hlowered, rfl, fun hat => ?_⟩
  obtain ⟨p, hp, hempty⟩ := helision
  exact absurd ((hiff.mp hat p hp).symm.trans hempty) Nat.one_ne_zero

end Reify
