/-
What a grammar promises of its trees, above all of the spans in them.

A grammar is any function from texts to trees, so what a theorem needs of one is a hypothesis.
These are all the promises that are asked for:
* spans: offsets are boundaries of the source, children lie inside their parent and follow one
  another (`LaidOut`; of spans alone `InOrder`, `Tree.LaidOut` and `Tree.Covers`);
* slots: an argument covers text, behind the first two bytes of the source and behind a first
  line that begins with `#!` (`Rewrite.BehindHead`);
* faults: a node is marked exactly if it holds a fault, and a missing node has no children
  (`Marked`, `Bare`);
* brackets: a token is written as it is named, and what lies between the children of a node
  holds no opening bracket (`AsNamed`, `Filled`);
* shape: nodes have the children that their kinds allow, and a comment is a leaf without field
  (`Tree.Grammatical`, `Tree.Conforms`, `Tree.BareComment`);
* texts: a template stands between backticks, with its holes inside (`Delimited`), and
  names, numbers and strings in an access chain are written as such (`Chain.Spelled`).

A source of less than 4 GiB keeps its offsets when they are cut to 32 bits, so its syntax tree
is laid out as the concrete tree is.
-/
import Reify.Proofs.Tree.Layout
import Reify.Proofs.Text.Boundary
import Reify.Concrete

namespace Reify
namespace Concrete

inductive Everywhere (P : Concrete → Prop) : Concrete → Prop
  | node {info : Info} {children : List Concrete} (here : P (.node info children))
    (below : ∀ c ∈ children, Everywhere P c) : Everywhere P (.node info children)

section Decide

variable (P : Concrete → Prop) [DecidablePred P]

mutual

def holdsEverywhere : Concrete → Bool
  | node info children => decide (P (node info children)) && holdsInEach children

def holdsInEach : List Concrete → Bool
  | [] => true
  | c :: cs => holdsEverywhere c && holdsInEach cs

end

theorem holdsInEach_eq (cs : List Concrete) : holdsInEach P cs = cs.all (holdsEverywhere P) := by
  induction cs with
  | nil => rfl
  | cons c cs ih => rw [holdsInEach, ih, List.all_cons]

theorem everywhere_of_holdsEverywhere :
    ∀ {c : Concrete}, holdsEverywhere P c = true → c.Everywhere P
  | .node info children, h => by
    rw [holdsEverywhere, Bool.and_eq_true, decide_eq_true_iff, holdsInEach_eq,
      List.all_eq_true] at h
    exact .node h.1 fun c hc => everywhere_of_holdsEverywhere (h.2 c hc)

end Decide

/-- A node whose offsets cut the source where they should, whose children lie inside it and
follow one another. -/
def LaidOut (source : List Char) (n : Concrete) : Prop :=
  n.info.start ≤ n.info.stop ∧
    (Text.Boundary source n.info.start ∧ Text.Boundary source n.info.stop) ∧
    (∀ c ∈ n.children, n.info.start ≤ c.info.start ∧ c.info.stop ≤ n.info.stop) ∧
    n.children.Pairwise fun a b => a.info.stop ≤ b.info.start

instance (source : List Char) (n : Concrete) : Decidable (LaidOut source n) :=
  inferInstanceAs (Decidable (_ ∧ _ ∧ _ ∧ _))

theorem toTreeIn_node (source : List Char) (field : Option String) (info : Info)
    (children : List Concrete) :
    toTreeIn source field (.node info children) =
      .node (info.toTree source field)
        (children.map fun c => toTreeIn source c.info.field c) := by
  rw [toTreeIn, toTrees_eq]

theorem span_toTreeIn (source : List Char) (field : Option String) (c : Concrete) :
    (toTreeIn source field c).span = .ofRange c.info.start c.info.stop := by
  obtain ⟨info, children⟩ := c
  rfl

/-- What holds at every grammar node holds, converted, at every node of the syntax tree. -/
theorem Everywhere.toTreeIn {P : Concrete → Prop} {Q : Tree → Prop} {source : List Char}
    {c : Concrete} (h : c.Everywhere P)
    (hPQ : ∀ n field, n.Everywhere P → Q (Concrete.toTreeIn source field n))
    (field : Option String) : (Concrete.toTreeIn source field c).Everywhere Q := by
  induction h generalizing field with
  | node here below ih =>
    have hroot := hPQ _ field (.node here below)
    rw [toTreeIn_node] at hroot ⊢
    refine Tree.everywhere_node.mpr ⟨hroot, fun t ht => ?_⟩
    obtain ⟨c, hc, rfl⟩ := List.mem_map.mp ht
    exact ih c hc c.info.field

theorem Everywhere.here {P : Concrete → Prop} {c : Concrete} (h : c.Everywhere P) : P c := by
  cases h with
  | node here _ => exact here

theorem Everywhere.child {P : Concrete → Prop} {c d : Concrete} (h : c.Everywhere P)
    (hd : d ∈ c.children) : d.Everywhere P := by
  cases h with
  | node _ below => exact below d hd

/-- The offsets of a node in a source of less than 4 GiB fit into 32 bits. -/
theorem LaidOut.toNat_span {source : List Char} {n : Concrete} (h : n.LaidOut source)
    (hsize : Text.byteLength source < UInt32.size) (field : Option String) :
    (toTreeIn source field n).span.start.toNat = n.info.start ∧
      (toTreeIn source field n).span.stop.toNat = n.info.stop := by
  rw [span_toTreeIn]
  exact Span.ofRange_of_lt (Nat.lt_of_le_of_lt h.2.1.1.le hsize)
    (Nat.lt_of_le_of_lt h.2.1.2.le hsize)

theorem everywhere_laidOut_toTree {source : String} {c : Concrete}
    (h : c.Everywhere (LaidOut source.toList))
    (hsize : Text.byteLength source.toList < UInt32.size) :
    (c.toTree source).Everywhere Tree.LaidOut := by
  refine h.toTreeIn (fun n field hn => ?_) none
  obtain ⟨info, children⟩ := n
  have hhere := hn.here
  obtain ⟨hstart, hstop⟩ := hhere.toNat_span hsize field
  have hchild : ∀ d ∈ children,
      (Concrete.toTreeIn source.toList d.info.field d).span.start.toNat = d.info.start ∧
      (Concrete.toTreeIn source.toList d.info.field d).span.stop.toNat = d.info.stop :=
    fun d hd => (hn.child hd).here.toNat_span hsize d.info.field
  obtain ⟨hforward, -, hnested, hordered⟩ := hhere
  rw [toTreeIn_node] at hstart hstop ⊢
  refine ⟨?_, ?_, ?_⟩
  · rw [UInt32.le_iff_toNat_le, hstart, hstop]
    exact hforward
  · intro t ht
    obtain ⟨d, hd, rfl⟩ := List.mem_map.mp ht
    rw [Span.Within, UInt32.le_iff_toNat_le, UInt32.le_iff_toNat_le, hstart, hstop,
      (hchild d hd).1, (hchild d hd).2]
    exact hnested d hd
  · refine List.pairwise_map.mpr (hordered.imp_of_mem fun {a b} ha hb hab => ?_)
    rw [Span.Before, UInt32.le_iff_toNat_le, (hchild a ha).2, (hchild b hb).1]
    exact hab

theorem everywhere_boundary_toTree {source : String} {c : Concrete}
    (h : c.Everywhere (LaidOut source.toList))
    (hsize : Text.byteLength source.toList < UInt32.size) :
    (c.toTree source).Everywhere fun n => Text.Boundary source.toList n.span.start.toNat ∧
      Text.Boundary source.toList n.span.stop.toNat := by
  refine h.toTreeIn (fun n field hn => ?_) none
  obtain ⟨hstart, hstop⟩ := hn.here.toNat_span hsize field
  rw [hstart, hstop]
  exact hn.here.2.1

end Concrete
end Reify
