/-
How the spans of a tree lie.

Under a grammar, a node covers its children and siblings follow one another.  Spans that are
apart share no byte; `Before` is the order that siblings have.
-/
import Reify.Proofs.Tree.Place

namespace Reify
namespace Span

def Within (s t : Span) : Prop := t.start ≤ s.start ∧ s.stop ≤ t.stop

/-- `s` ends before `t` starts, or where it does. -/
def Before (s t : Span) : Prop := s.stop ≤ t.start

def Apart (s t : Span) : Prop := s.Before t ∨ t.Before s

instance (s t : Span) : Decidable (s.Within t) := inferInstanceAs (Decidable (_ ∧ _))

instance (s t : Span) : Decidable (s.Before t) := inferInstanceAs (Decidable (_ ≤ _))

theorem Within.refl (s : Span) : s.Within s := ⟨UInt32.le_refl _, UInt32.le_refl _⟩

theorem Within.trans {s t u : Span} (hs : s.Within t) (ht : t.Within u) : s.Within u :=
  ⟨UInt32.le_trans ht.1 hs.1, UInt32.le_trans hs.2 ht.2⟩

theorem Apart.symm {s t : Span} (h : s.Apart t) : t.Apart s := Or.symm h

theorem Before.within {s t u v : Span} (h : u.Before v) (hs : s.Within u) (ht : t.Within v) :
    s.Before t :=
  UInt32.le_trans hs.2 (UInt32.le_trans h ht.1)

theorem Apart.within {s t u v : Span} (h : u.Apart v) (hs : s.Within u) (ht : t.Within v) :
    s.Apart t :=
  h.imp (fun h => h.within hs ht) (fun h => h.within ht hs)

/-- Spans that are apart are in the order of their starts, if the second is not empty. -/
theorem Apart.before {s t : Span} (h : s.Apart t) (ht : t.start < t.stop)
    (hle : s.start ≤ t.start) : s.Before t := by
  rcases h with h | h
  · exact h
  · exact absurd (UInt32.lt_of_lt_of_le ht (UInt32.le_trans h hle)) (UInt32.lt_irrefl _)

end Span

namespace Tree

/-- A node whose span runs forward and covers its children, which follow one another. -/
def LaidOut (n : Tree) : Prop :=
  n.span.start ≤ n.span.stop ∧ (∀ c ∈ n.children, c.span.Within n.span) ∧
    n.children.Pairwise fun a b => a.span.Before b.span

instance (n : Tree) : Decidable n.LaidOut := inferInstanceAs (Decidable (_ ∧ _ ∧ _))

theorem LaidOut.apart {n a b : Tree} (h : n.LaidOut) {i j : Nat} (ha : n.children[i]? = some a)
    (hb : n.children[j]? = some b) (hij : i ≠ j) : a.span.Apart b.span := by
  obtain ⟨hi, rfl⟩ := List.getElem?_eq_some_iff.mp ha
  obtain ⟨hj, rfl⟩ := List.getElem?_eq_some_iff.mp hb
  have ordered := List.pairwise_iff_getElem.mp h.2.2
  rcases Nat.lt_or_gt_of_ne hij with hlt | hgt
  · exact Or.inl (ordered i j hi hj hlt)
  · exact Or.inr (ordered j i hj hi hgt)

theorem Everywhere.within {t n : Tree} (h : t.Everywhere LaidOut) {p : Place}
    (hn : t.at? p = some n) : n.span.Within t.span := by
  induction p generalizing t with
  | nil =>
    obtain rfl := Option.some.inj hn
    exact Span.Within.refl _
  | cons i p ih =>
    rw [at?_cons, Option.bind_eq_some_iff] at hn
    obtain ⟨c, hc, hn⟩ := hn
    have hmem := List.mem_of_getElem? hc
    exact (ih (h.child hmem) hn).trans (h.here.2.1 c hmem)

end Tree
end Reify
