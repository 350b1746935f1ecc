/-
A traversal visits every node once, in pre-order.

A place is the way from a node to one in it, and says at each step in which field and at which
item of it to go on.  It leads through the fields of the nodes (`at?`) and not through their
children, so a child that is left out of `children` would still have its place.  Read step by
step, places are in pre-order: a node comes before those in it, and an earlier field or item
before a later one (`Place.Before`).  The nodes in a node are listed with their places in this
order (`occurrences`), a place that has a node is in the list, and the calls of a traversal are
those for the nodes of the list.
-/
import Mathlib.Algebra.BigOperators.Group.Finset.Piecewise
import Reify.Proofs.Node.Value

namespace Reify
namespace Node

/-! ## Places -/

/-- What stands at each item of a field.  An absent node and the text of a template take up an
item too. -/
def Value.items : Value → List (Option Node)
  | node n => [some n]
  | nodes ns => ns.map some
  | optionalNode n? => [n?]
  | parts ps => ps.map TemplatePart.node?
  | text _ | optionalText _ | flag _ | string _ | number _ | thunk _ | error _ => []

/-- The number of a field and the number of an item in it, for each step of the way. -/
abbrev Place := List (Nat × Nat)

def child? (n : Node) (step : Nat × Nat) : Option Node :=
  n.values[step.1]?.bind fun v => v.items[step.2]?.join

def at? : Node → Place → Option Node
  | n, [] => some n
  | n, step :: p => (n.child? step).bind fun c => c.at? p

namespace Place

/-- An earlier field comes before a later one, and so does an earlier item of the same field. -/
def StepBefore : Nat × Nat → Nat × Nat → Prop := Prod.Lex (· < ·) (· < ·)

/-- The place of a node comes before those in it, and places are else compared at the first step
at which they part. -/
def Before : Place → Place → Prop := List.Lex StepBefore

theorem Before.root (step : Nat × Nat) (p : Place) : Before [] (step :: p) := List.Lex.nil

theorem Before.below (step : Nat × Nat) {p q : Place} (h : Before p q) :
    Before (step :: p) (step :: q) := List.Lex.cons h

theorem Before.parted {step step' : Nat × Nat} (h : StepBefore step step') (p q : Place) :
    Before (step :: p) (step' :: q) := List.Lex.rel h

end Place

/-! ## Steps -/

def steps (n : Node) : List ((Nat × Nat) × Node) :=
  n.values.zipIdx.flatMap fun (v, i) =>
    v.items.zipIdx.filterMap fun (c?, j) => c?.map fun c => ((i, j), c)

theorem mem_steps {n c : Node} {step : Nat × Nat} :
    (step, c) ∈ n.steps ↔ n.child? step = some c := by
  obtain ⟨i, j⟩ := step
  simp only [steps, child?, List.mem_flatMap, List.mem_filterMap, Prod.exists,
    List.mk_mem_zipIdx_iff_getElem?, Option.bind_eq_some_iff, Option.join_eq_some_iff,
    Option.map_eq_some_iff, Prod.mk.injEq]
  constructor
  · rintro ⟨v, _, hv, _, _, hc, _, rfl, ⟨rfl, rfl⟩, rfl⟩
    exact ⟨v, hv, hc⟩
  · rintro ⟨v, hv, hc⟩
    exact ⟨v, i, hv, some c, j, hc, c, rfl, ⟨rfl, rfl⟩, rfl⟩

theorem zipIdx_pairwise {α : Type} (xs : List α) : xs.zipIdx.Pairwise fun x y => x.2 < y.2 := by
  have hindices : (xs.zipIdx.map Prod.snd).Pairwise (· < ·) := by
    rw [List.zipIdx_map_snd]
    exact List.pairwise_lt_range'
  exact List.pairwise_map.mp hindices

theorem steps_pairwise (n : Node) :
    n.steps.Pairwise fun x y => Place.StepBefore x.1 y.1 := by
  -- Steps into one field are told by the item, and steps into two fields by the field.
  refine List.pairwise_flatMap.mpr ⟨?_, ?_⟩
  · rintro ⟨v, i⟩ -
    refine List.pairwise_filterMap.mpr ((zipIdx_pairwise v.items).imp ?_)
    rintro ⟨a?, j⟩ ⟨b?, k⟩ hjk x hx y hy
    obtain ⟨a, -, rfl⟩ := Option.map_eq_some_iff.mp hx
    obtain ⟨b, -, rfl⟩ := Option.map_eq_some_iff.mp hy
    exact .right i hjk
  · refine (zipIdx_pairwise n.values).imp ?_
    rintro ⟨v, i⟩ ⟨w, k⟩ hik x hx y hy
    obtain ⟨⟨a?, j⟩, -, hx⟩ := List.mem_filterMap.mp hx
    obtain ⟨⟨b?, l⟩, -, hy⟩ := List.mem_filterMap.mp hy
    obtain ⟨a, -, rfl⟩ := Option.map_eq_some_iff.mp hx
    obtain ⟨b, -, rfl⟩ := Option.map_eq_some_iff.mp hy
    exact .left j l hik

theorem Value.filterMap_items (v : Value) : v.items.filterMap id = v.children := by
  cases v with
  | nodes ns => simp [items, children, List.filterMap_map]
  | optionalNode n? => cases n? <;> rfl
  | parts ps => rw [items, children, List.filterMap_map, Function.id_comp]
  | _ => rfl

theorem map_snd_steps (n : Node) : n.steps.map Prod.snd = n.children := by
  have hfield (v : Value) (i : Nat) :
      (v.items.zipIdx.filterMap fun x => x.1.map fun c => ((i, x.2), c)).map Prod.snd =
        v.children := by
    rw [← v.filterMap_items, List.map_filterMap]
    conv_rhs => rw [← List.zipIdx_map_fst 0 v.items, List.filterMap_map]
    refine List.filterMap_congr ?_
    rintro ⟨_ | c, j⟩ - <;> rfl
  rw [steps, List.map_flatMap, children_eq]
  conv_rhs => rw [← List.zipIdx_map_fst 0 n.values, List.flatMap_map]
  exact congrArg (n.values.zipIdx.flatMap ·) (funext fun x => hfield x.1 x.2)

theorem mem_children_of_mem_steps {n : Node} {x : (Nat × Nat) × Node} (h : x ∈ n.steps) :
    x.2 ∈ n.children := by
  rw [← map_snd_steps]
  exact List.mem_map_of_mem h

/-! ## Occurrences -/

/-- The nodes in a node with their places, itself included, in pre-order. -/
def occurrences (n : Node) : List (Place × Node) :=
  fold (fun n below => ([], n) ::
    (n.steps.zip below).flatMap fun x => x.2.map fun o => (x.1.1 :: o.1, o.2)) n

theorem occurrences_eq (n : Node) :
    n.occurrences =
      ([], n) :: n.steps.flatMap fun x => x.2.occurrences.map fun o => (x.1 :: o.1, o.2) := by
  have hfold : n.occurrences = ([], n) :: (n.steps.zip (n.children.map occurrences)).flatMap
      fun x => x.2.map fun o => (x.1.1 :: o.1, o.2) := fold_eq _ n
  have hzip : n.steps.zip (n.children.map occurrences) =
      n.steps.map fun x => (x, x.2.occurrences) := by
    rw [← map_snd_steps, List.map_map, ← List.zip_map', List.map_id']
    rfl
  rw [hfold, hzip, List.flatMap_map]

theorem mem_occurrences {n m : Node} {p : Place} :
    (p, m) ∈ n.occurrences ↔ n.at? p = some m := by
  induction n using induct generalizing p with
  | node n ih =>
    rw [occurrences_eq, List.mem_cons, List.mem_flatMap]
    cases p with
    | nil =>
      simp only [at?, Prod.mk.injEq, true_and, Option.some.injEq]
      constructor
      · rintro (rfl | ⟨x, -, hm⟩)
        · rfl
        · obtain ⟨o, -, heq⟩ := List.mem_map.mp hm
          cases heq
      · rintro rfl
        exact .inl rfl
    | cons step p =>
      rw [at?, Option.bind_eq_some_iff]
      constructor
      · rintro (heq | ⟨⟨step', c⟩, hstep, hm⟩)
        · cases heq
        · obtain ⟨⟨q, m'⟩, ho, heq⟩ := List.mem_map.mp hm
          cases heq
          exact ⟨c, mem_steps.mp hstep, (ih c (mem_children_of_mem_steps hstep)).mp ho⟩
      · rintro ⟨c, hc, hm⟩
        have hstep := mem_steps.mpr hc
        refine .inr ⟨(step, c), hstep, List.mem_map.mpr ⟨(p, m), ?_, rfl⟩⟩
        exact (ih c (mem_children_of_mem_steps hstep)).mpr hm

/-- The list is in pre-order, so no place is in it twice. -/
theorem occurrences_pairwise (n : Node) :
    (n.occurrences.map Prod.fst).Pairwise Place.Before := by
  rw [List.pairwise_map]
  induction n using induct with
  | node n ih =>
    rw [occurrences_eq, List.pairwise_cons, List.pairwise_flatMap]
    -- The node itself against those in it, two places below one step, and below two steps.
    refine ⟨?_, ?_, ?_⟩
    · intro o ho
      obtain ⟨x, -, ho⟩ := List.mem_flatMap.mp ho
      obtain ⟨o, -, rfl⟩ := List.mem_map.mp ho
      exact .root x.1 o.1
    · intro x hx
      exact List.pairwise_map.mpr
        ((ih x.2 (mem_children_of_mem_steps hx)).imp fun h => h.below x.1)
    · refine n.steps_pairwise.imp ?_
      intro x y hxy a ha b hb
      obtain ⟨a, -, rfl⟩ := List.mem_map.mp ha
      obtain ⟨b, -, rfl⟩ := List.mem_map.mp hb
      exact .parted hxy a.1 b.1

-- The operator is a field too, so the right operand stands in the third.
example : (exprStmt (.binaryExpr (.identifier "a") "+" .nullLiteralExpr)).occurrences.map
    (fun o => (o.1, o.2.kind)) = [([], .exprStmt), ([(0, 0)], .binaryExpr),
      ([(0, 0), (0, 0)], .identifier), ([(0, 0), (2, 0)], .nullLiteralExpr)] := rfl

/-! ## Visits -/

def error? : Node → Option ErrorValue
  | err e => some e
  | _ => none

theorem Visit.error?_ofNode (n : Node) : (Visit.ofNode n).error? = n.error? := by
  cases n <;> rfl

theorem visits_eq_map (n : Node) : n.visits = n.occurrences.map fun o => Visit.ofNode o.2 := by
  induction n using induct with
  | node n ih =>
    rw [visits_eq_cons, occurrences_eq, List.map_cons, List.map_flatMap, ← map_snd_steps,
      List.flatMap_map]
    refine congrArg (Visit.ofNode n :: ·) (List.flatMap_congr fun x hx => ?_)
    rw [ih x.2 (mem_children_of_mem_steps hx), List.map_map]
    rfl

theorem errors_eq_filterMap (n : Node) :
    n.errors = n.occurrences.filterMap fun o => o.2.error? := by
  rw [errors, visits_eq_map, List.filterMap_map]
  exact List.filterMap_congr fun o _ => Visit.error?_ofNode o.2

end Node

/-! ## Counts -/

namespace KindCounter

theorem count_visit_eq_add (c : KindCounter) (n : Node) (k : NodeKind) :
    (c.visit n).count k = c.count k + n.occurrences.countP fun o => o.2.kind = k := by
  have hkinds : n.visits.map Node.Visit.kind = n.occurrences.map fun o => o.2.kind := by
    rw [n.visits_eq_map, List.map_map]
    exact List.map_congr_left fun o _ => Node.Visit.kind_ofNode o.2
  rw [count_visit, hkinds, List.count, List.countP_map]
  rfl

theorem count_foldl_visit (c : KindCounter) (ns : List Node) (k : NodeKind) :
    (ns.foldl visit c).count k =
      c.count k + (ns.flatMap Node.occurrences).countP fun o => o.2.kind = k := by
  induction ns generalizing c with
  | nil => rfl
  | cons n ns ih =>
    rw [List.foldl_cons, ih, count_visit_eq_add, List.flatMap_cons, List.countP_append,
      Nat.add_assoc]

end KindCounter

namespace NodeKind

theorem mem_all (k : NodeKind) : k ∈ all := by cases k <;> decide

theorem nodup_all : all.Nodup := by decide

/-- Every kind is in the catalogue once, so the items of each kind are all of them. -/
theorem sum_countP {α : Type} (kind : α → NodeKind) (xs : List α) :
    (all.map fun k => xs.countP fun x => kind x = k).sum = xs.length := by
  induction xs with
  | nil => exact List.sum_map_zero
  | cons x xs ih =>
    have hone : (all.map fun k => if kind x = k then 1 else 0).sum = 1 := by
      rw [← List.sum_toFinset _ nodup_all, Finset.sum_ite_eq,
        if_pos (List.mem_toFinset.mpr (mem_all _))]
    simp only [List.countP_cons, List.sum_map_add, ih, decide_eq_true_eq, hone, List.length_cons]

end NodeKind

/-- The nodes in a tree stand at places, listed once each in pre-order.  A traversal makes one
call for each, of the form that its kind prescribes, in this order, and the errors of the tree
are those of the error nodes in this order.  A counter that has visited any number of trees has
counted the nodes of each kind in all of them, and all counts together are the number of nodes. -/
theorem every_node_visited_once (n : Node) (ns : List Node) :
    ((n.occurrences.map Prod.fst).Pairwise Node.Place.Before ∧
        ∀ p m, (p, m) ∈ n.occurrences ↔ n.at? p = some m) ∧
      n.visits = n.occurrences.map (fun o => Node.Visit.ofNode o.2) ∧
      n.errors = n.occurrences.filterMap (fun o => o.2.error?) ∧
      (∀ k, (ns.foldl KindCounter.visit .empty).count k =
        (ns.flatMap Node.occurrences).countP fun o => o.2.kind = k) ∧
      (NodeKind.all.map (ns.foldl KindCounter.visit .empty).count).sum =
        (ns.flatMap Node.occurrences).length := by
  have hcount (k : NodeKind) : (ns.foldl KindCounter.visit .empty).count k =
      (ns.flatMap Node.occurrences).countP fun o => o.2.kind = k := by
    rw [KindCounter.count_foldl_visit, KindCounter.empty, Nat.zero_add]
  refine ⟨⟨n.occurrences_pairwise, fun p m => Node.mem_occurrences⟩, n.visits_eq_map,
    n.errors_eq_filterMap, hcount, ?_⟩
  rw [funext hcount, NodeKind.sum_countP]

end Reify
