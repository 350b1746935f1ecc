/-
Oracles that lowering cannot tell apart.

Lowering asks an oracle three things of a node: which reference it is, the type of an access as
text, and the signature it is bound against.  Where two oracles give the same answers at every node of a tree
(`Oracle.AgreeAt`), the tree and all its parts lower in the same way (`lowersAlike`).
-/
import Reify.Proofs.Lowering.Outcome

namespace Reify

open Lowering

/-- Two oracles answer alike what lowering asks of a node. -/
structure Oracle.AgreeAt (o o' : Oracle) (t : Tree) : Prop where
  reference : o.resolveReference? t = o'.resolveReference? t
  snapshot : t.kind = .memberExpression ∨ t.kind = .subscriptExpression →
    o.typeSnapshot? t = o'.typeSnapshot? t
  signature : Arguments.usableSignature o t = Arguments.usableSignature o' t

structure LowersAlike (o o' : Oracle) (t : Tree) : Prop where
  expr : lowerExpr o t = lowerExpr o' t
  statement : lowerStatement o t = lowerStatement o' t
  part : ∀ pos, lowerAt o pos t = lowerAt o' pos t

variable {o o' : Oracle} {t : Tree}

/-! ## What a node reads of its children -/

theorem lowerChildren_congr {ts : List Tree} (h : ∀ c ∈ ts, LowersAlike o o' c) (pos : Position)
    (p : Tree → Bool) : lowerChildren o pos p ts = lowerChildren o' pos p ts := by
  rw [lowerChildren_eq, lowerChildren_eq]
  exact List.map_congr_left fun c hc => (h c (List.mem_of_mem_filter hc)).part pos

theorem lowerStatements_congr {ts : List Tree} (h : ∀ c ∈ ts, LowersAlike o o' c) :
    lowerStatements o ts = lowerStatements o' ts := by
  rw [lowerStatements_eq, lowerStatements_eq]
  have heach : (ts.filter Tree.isOperand).map (lowerStatement o) =
      (ts.filter Tree.isOperand).map (lowerStatement o') :=
    List.map_congr_left fun c hc => (h c (List.mem_of_mem_filter hc)).statement
  rw [heach]

theorem assemble_congr (h : o.AgreeAt o' t) (supplied : List (Lowering Node)) :
    Arguments.assemble o t supplied = Arguments.assemble o' t supplied := by
  rw [Arguments.assemble, Arguments.assemble, h.signature]

theorem lowerArguments_congr {ts : List Tree}
    (h : ∀ c ∈ ts, ∀ d ∈ c.children, LowersAlike o o' d) :
    lowerArguments o ts = lowerArguments o' ts := by
  induction ts with
  | nil => rfl
  | cons c ts ih =>
    rw [List.forall_mem_cons] at h
    obtain ⟨info, children⟩ := c
    have hchildren : ∀ d ∈ children, LowersAlike o o' d := h.1
    rw [lowerArguments, lowerArguments, lowerChildren_congr hchildren, ih h.2]

/-! ## Trees -/

/-- Where two oracles agree at every node of a tree, the tree lowers in the same way. -/
theorem lowersAlike (h : t.Everywhere (Oracle.AgreeAt o o')) : LowersAlike o o' t := by
  induction t using Tree.induct_below with
  | node t ih =>
    have hbelow : ∀ c ∈ t.children, LowersAlike o o' c := fun c hc => (ih c hc).1 (h.child hc)
    have harguments : ∀ c ∈ t.children, ∀ d ∈ c.children, LowersAlike o o' d :=
      fun c hc d hd => (ih c hc).2 d hd ((h.child hc).child hd)
    have hhere : o.AgreeAt o' t := h.here
    obtain ⟨info, children⟩ := t
    have hchildren (pos : Position) (p : Tree → Bool) :
        lowerChildren o pos p children = lowerChildren o' pos p children :=
      lowerChildren_congr hbelow pos p
    have hstatements : lowerStatements o children = lowerStatements o' children :=
      lowerStatements_congr hbelow
    have hbound : lowerArguments o children = lowerArguments o' children :=
      lowerArguments_congr harguments
    have hexpr : lowerExpr o (.node info children) = lowerExpr o' (.node info children) := by
      unfold lowerExpr
      dsimp only
      split
      case h_15 hk => simp only [hchildren, hhere.reference, hhere.snapshot (.inl hk)]
      case h_16 hk => simp only [hchildren, hhere.reference, hhere.snapshot (.inr hk)]
      all_goals simp only [hchildren, hbound, assemble_congr hhere, hhere.reference]
    have hstatement :
        lowerStatement o (.node info children) = lowerStatement o' (.node info children) := by
      unfold lowerStatement
      simp only [hchildren, hstatements]
    refine ⟨hexpr, hstatement, fun pos => ?_⟩
    cases pos <;>
      simp only [lowerAt, lowerChildren, hchildren, hstatements, hexpr, hstatement]

section

variable (h : t.Everywhere (Oracle.AgreeAt o o'))

include h

theorem lowerFunction_congr (flavor : FunctionFlavor) (drop : Nat) :
    lowerFunction o flavor drop t = lowerFunction o' flavor drop t := by
  rw [lowerFunction, lowerChildren_congr fun c hc => lowersAlike (h.child hc), lowerFunction]

theorem lowerReflected_congr (drop : Nat) : lowerReflected o drop t = lowerReflected o' drop t := by
  rw [lowerReflected, lowerFunction_congr h, lowerReflected]

theorem bindArguments_congr : bindArguments o t = bindArguments o' t := by
  have hargs : t.callArguments.map (lowerElement o) = t.callArguments.map (lowerElement o') :=
    List.map_congr_left fun c hc => (lowersAlike (h.argument hc)).part .element
  rw [bindArguments, hargs, assemble_congr h.here, bindArguments]

end

end Reify
