/-
The rewrites of a source unit.

The tree is walked once.  Where functions are selected, each is lowered and its slot rewritten;
what lies inside a rewritten slot is not looked at again, and everything else is.
-/
import Reify.Lowering.Basic
import Reify.Rewrite.Selector

namespace Reify

/-- A slot and the reflected form that takes its place. -/
structure Rewrite where
  kind : ConstructKind
  span : Span
  node : Node

namespace Rewrite

def ofSelection (o : Oracle) (t : Tree) (s : Selection) : List Rewrite :=
  s.slots.filterMap fun i =>
    t.callArguments[i]?.map fun slot => ⟨s.kind, slot.span, lowerReflected o s.drop slot⟩

mutual

/-- The rewrites in a tree, those of a node before those of its children. -/
def collect (o : Oracle) : Tree → List Rewrite
  | .node info children =>
    match select? o (.node info children) with
    | none => collectAll o children
    | some s => ofSelection o (.node info children) s ++ collectBeside o s.slots children

def collectAll (o : Oracle) : List Tree → List Rewrite
  | [] => []
  | t :: ts => collect o t ++ collectAll o ts

/-- The rewrites in the children of an invocation, outside the arguments with the indices
`slots`. -/
def collectBeside (o : Oracle) (slots : List Nat) : List Tree → List Rewrite
  | [] => []
  | .node info children :: ts =>
    if Tree.inField "arguments" (.node info children) then
      (if info.kind = .arguments then collectOutside o slots 0 children
        else collect o (.node info children)) ++ collectAll o ts
    else collect o (.node info children) ++ collectBeside o slots ts

/-- The rewrites in the children of an argument list, of which `index` is the next argument,
outside the arguments with the indices `slots`. -/
def collectOutside (o : Oracle) (slots : List Nat) (index : Nat) : List Tree → List Rewrite
  | [] => []
  | t :: ts =>
    if t.isOperand then
      (if slots.contains index then [] else collect o t) ++ collectOutside o slots (index + 1) ts
    else collect o t ++ collectOutside o slots index ts

end

theorem collectAll_eq (o : Oracle) (ts : List Tree) : collectAll o ts = ts.flatMap (collect o) := by
  induction ts with
  | nil => rfl
  | cons t ts ih => rw [collectAll, ih, List.flatMap_cons]

/-- Puts a rewrite before the first that does not start before it. -/
def insert (r : Rewrite) : List Rewrite → List Rewrite
  | [] => [r]
  | s :: ss => if r.span.start ≤ s.span.start then r :: s :: ss else s :: insert r ss

/-- The rewrites in the order of their starts, equal starts in their given order. -/
def inSourceOrder (rs : List Rewrite) : List Rewrite := rs.foldr insert []

theorem insert_perm (r : Rewrite) (rs : List Rewrite) : (insert r rs).Perm (r :: rs) := by
  induction rs with
  | nil => exact .refl _
  | cons s ss ih =>
    rw [insert]
    split
    · exact .refl _
    · exact (ih.cons s).trans (.swap r s ss)

theorem inSourceOrder_perm (rs : List Rewrite) : (inSourceOrder rs).Perm rs := by
  induction rs with
  | nil => exact .refl _
  | cons r rs ih => exact (insert_perm r (inSourceOrder rs)).trans (ih.cons r)

theorem insert_pairwise (r : Rewrite) {rs : List Rewrite}
    (h : rs.Pairwise fun a b => a.span.start ≤ b.span.start) :
    (insert r rs).Pairwise fun a b => a.span.start ≤ b.span.start := by
  induction rs with
  | nil => exact List.pairwise_singleton _ _
  | cons s ss ih =>
    obtain ⟨hs, hss⟩ := List.pairwise_cons.mp h
    rw [insert]
    split
    case isTrue hrs =>
      refine List.pairwise_cons.mpr ⟨fun t ht => ?_, h⟩
      rcases List.mem_cons.mp ht with rfl | ht
      · exact hrs
      · exact UInt32.le_trans hrs (hs t ht)
    case isFalse hrs =>
      refine List.pairwise_cons.mpr ⟨fun t ht => ?_, ih hss⟩
      rcases List.mem_cons.mp ((insert_perm r ss).mem_iff.mp ht) with rfl | ht
      · exact UInt32.le_of_lt (UInt32.not_le.mp hrs)
      · exact hs t ht

theorem inSourceOrder_pairwise (rs : List Rewrite) :
    (inSourceOrder rs).Pairwise fun a b => a.span.start ≤ b.span.start := by
  induction rs with
  | nil => exact List.Pairwise.nil
  | cons r rs ih => exact insert_pairwise r ih

end Rewrite
end Reify
