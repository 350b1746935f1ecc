/-
The walk rewrites the outermost slots.

A selected invocation that lies in no slot of another is rewritten once; what lies in a slot is
not.  The walk is followed place by place: the children of a node are walked by index, and a
selected invocation leaves one index of its argument list out.
-/
import Mathlib.Data.List.Forall2
import Mathlib.Data.List.Nodup
import Reify.Proofs.Tree.Layout
import Reify.Rewrite.Walk

namespace Reify

/-! ## Selections -/

namespace Selector

theorem selectReflect?_slot {t : Tree} {s : Selection} (h : selectReflect? t = some s) :
    ∃ i, s.slots = [i] ∧ i < t.callArguments.length := by
  simp only [selectReflect?, Option.bind_eq_bind, Option.bind_eq_some_iff] at h
  obtain ⟨callee, -, h⟩ := h
  split at h
  case isTrue hc =>
    obtain rfl := Option.some.inj h
    exact ⟨0, rfl, by omega⟩
  case isFalse => cases h

theorem selectEventMethod?_slot {o : Oracle} {t : Tree} {s : Selection}
    (h : selectEventMethod? o t = some s) : ∃ i, s.slots = [i] ∧ i < t.callArguments.length := by
  simp only [selectEventMethod?, Option.bind_eq_bind, Option.bind_eq_some_iff] at h
  obtain ⟨callee, -, h⟩ := h
  split at h
  case isFalse => cases h
  case isTrue =>
    simp only [Option.bind_eq_some_iff] at h
    obtain ⟨property, -, kind, -, object, -, receiver, -, h⟩ := h
    split at h
    case isFalse => cases h
    case isTrue =>
      simp only [Option.bind_eq_some_iff] at h
      obtain ⟨trailing, hlast, h⟩ := h
      split at h
      case isFalse => cases h
      case isTrue =>
        obtain rfl := Option.some.inj h
        have hne : t.callArguments ≠ [] := by
          intro hnil
          rw [hnil] at hlast
          cases hlast
        exact ⟨_, rfl, Nat.sub_lt (List.length_pos_iff.mpr hne) Nat.one_pos⟩

theorem componentSlot?_slot {kind : ComponentKind} {argc : Nat} {s : Selection}
    (h : componentSlot? kind argc = some s) : ∃ i, s.slots = [i] ∧ i < argc := by
  cases kind <;>
    simp only [componentSlot?, Option.ite_none_right_eq_some, Option.some.injEq,
      reduceCtorEq] at h <;>
    obtain ⟨hargc, rfl⟩ := h <;>
    exact ⟨_, rfl, by omega⟩

theorem selectComponent?_slot {o : Oracle} {t : Tree} {s : Selection}
    (h : selectComponent? o t = some s) : ∃ i, s.slots = [i] ∧ i < t.callArguments.length := by
  simp only [selectComponent?, Option.bind_eq_bind, Option.bind_eq_some_iff] at h
  obtain ⟨kind, -, h⟩ := h
  exact componentSlot?_slot h

end Selector

/-- A selection has one slot, and it is an argument that the invocation has. -/
theorem select?_slot {o : Oracle} {t : Tree} {s : Selection} (h : select? o t = some s) :
    ∃ i, s.slots = [i] ∧ i < t.callArguments.length := by
  unfold select? at h
  split at h
  · split at h
    · next found hfound =>
      obtain rfl := Option.some.inj h
      exact Selector.selectReflect?_slot hfound
    · exact Selector.selectEventMethod?_slot h
  · exact Selector.selectComponent?_slot h
  · cases h

namespace Rewrite

/-! ## The walk by index -/

theorem collectAll_eq_mapIdx (o : Oracle) (ts : List Tree) :
    collectAll o ts = (ts.mapIdx fun _ c => collect o c).flatten := by
  induction ts with
  | nil => rfl
  | cons t ts ih => rw [collectAll, ih, List.mapIdx_cons, List.flatten_cons]

theorem collectOutside_of_lt (o : Oracle) (ts : List Tree) {i b : Nat} (h : i < b) :
    collectOutside o [i] b ts = collectAll o ts := by
  induction ts generalizing b with
  | nil => rfl
  | cons t ts ih =>
    have hb : [i].contains b = false := by simpa using (by omega : b ≠ i)
    rw [collectOutside, collectAll, hb, ih h, ih (by omega : i < b + 1)]
    simp

theorem collectOutside_add_eq_mapIdx (o : Oracle) {ts : List Tree} {i k : Nat} (b : Nat)
    (h : Tree.operandIndex? ts i = some k) :
    collectOutside o [b + i] b ts =
      (ts.mapIdx fun j c => if j = k then [] else collect o c).flatten := by
  induction ts generalizing i k b with
  | nil => cases h
  | cons t ts ih =>
    rw [List.mapIdx_cons, List.flatten_cons, collectOutside]
    by_cases ht : t.isOperand
    · rw [if_pos ht]
      cases i with
      | zero =>
        rw [Tree.operandIndex?, if_pos ht, Option.some.injEq] at h
        subst h
        rw [Nat.add_zero, collectOutside_of_lt o ts (Nat.lt_succ_self b), collectAll_eq_mapIdx]
        simp
      | succ i =>
        rw [Tree.operandIndex?, if_pos ht, Option.map_eq_some_iff] at h
        obtain ⟨k, hk, rfl⟩ := h
        have hb : [b + (i + 1)].contains b = false := by simp
        rw [hb, ← Nat.add_assoc, Nat.add_right_comm, ih (b + 1) hk]
        simp
    · rw [if_neg ht]
      obtain ⟨k', hk, rfl⟩ : ∃ k', Tree.operandIndex? ts i = some k' ∧ k' + 1 = k := by
        cases i <;> rw [Tree.operandIndex?, if_neg ht, Option.map_eq_some_iff] at h <;> exact h
      rw [ih b hk]
      simp

/-- Outside argument number `i`, the node at its index is left out. -/
theorem collectOutside_eq_mapIdx (o : Oracle) {ts : List Tree} {i k : Nat}
    (h : Tree.operandIndex? ts i = some k) :
    collectOutside o [i] 0 ts =
      (ts.mapIdx fun j c => if j = k then [] else collect o c).flatten := by
  have hoffset := collectOutside_add_eq_mapIdx o 0 h
  rwa [Nat.zero_add] at hoffset

theorem collectBeside_eq_mapIdx (o : Oracle) (slots : List Nat) {ts : List Tree} {j : Nat}
    {list : Tree} (hj : ts.findIdx? (Tree.inField "arguments") = some j)
    (hlist : ts[j]? = some list) (hkind : list.kind = .arguments) :
    collectBeside o slots ts =
      (ts.mapIdx fun i c =>
        if i = j then collectOutside o slots 0 list.children else collect o c).flatten := by
  induction ts generalizing j with
  | nil => cases hj
  | cons t ts ih =>
    obtain ⟨info, children⟩ := t
    rw [List.mapIdx_cons, List.flatten_cons, collectBeside]
    rw [List.findIdx?_cons] at hj
    split at hj
    case isTrue hfield =>
      obtain rfl := Option.some.inj hj
      obtain rfl := Option.some.inj hlist
      have hkind' : info.kind = .arguments := hkind
      rw [if_pos hfield, if_pos hkind', if_pos rfl, collectAll_eq_mapIdx]
      simp [Tree.children]
    case isFalse hfield =>
      obtain ⟨j', hj', rfl⟩ := Option.map_eq_some_iff.mp hj
      rw [if_neg hfield, ih hj' hlist]
      simp

/-! ## Outermost slots -/

def slotPlaces (o : Oracle) (n : Tree) : List Tree.Place :=
  match select? o n with
  | some s => s.slots.filterMap n.argumentPlace?
  | none => []

def Selected (o : Oracle) (t : Tree) (p : Tree.Place) : Prop :=
  ∃ n s, t.at? p = some n ∧ select? o n = some s

/-- The place `p` is a slot of a selected invocation, or lies inside one. -/
def InSlot (o : Oracle) (t : Tree) (p : Tree.Place) : Prop :=
  ∃ q n r, t.at? q = some n ∧ r ∈ slotPlaces o n ∧ q ++ r <+: p

def Outermost (o : Oracle) (t : Tree) (p : Tree.Place) : Prop :=
  Selected o t p ∧ ¬InSlot o t p

/-- `r` is the rewrite of the invocation at `p`: its slot, lowered as its selection says. -/
def RewriteAt (o : Oracle) (t : Tree) (p : Tree.Place) (r : Rewrite) : Prop :=
  ∃ n s i slot, t.at? p = some n ∧ select? o n = some s ∧ s.slots = [i] ∧
    n.callArguments[i]? = some slot ∧ r = ⟨s.kind, slot.span, lowerReflected o s.drop slot⟩

/-- The list `rs` holds one rewrite for each place that satisfies `A`, and no other. -/
def Enumerates (o : Oracle) (t : Tree) (A : Tree.Place → Prop) (rs : List Rewrite) : Prop :=
  ∃ ps : List Tree.Place, ps.Nodup ∧ (∀ p, p ∈ ps ↔ A p) ∧ List.Forall₂ (RewriteAt o t) ps rs

variable {o : Oracle} {t : Tree}

theorem Enumerates.congr {A B : Tree.Place → Prop} {rs : List Rewrite} (h : Enumerates o t A rs)
    (hAB : ∀ p, A p ↔ B p) : Enumerates o t B rs := by
  obtain ⟨ps, hnodup, hmem, hrs⟩ := h
  exact ⟨ps, hnodup, fun p => (hmem p).trans (hAB p), hrs⟩

theorem Enumerates.empty {A : Tree.Place → Prop} (h : ∀ p, ¬A p) : Enumerates o t A [] :=
  ⟨[], List.nodup_nil, fun p => by simp [h p], .nil⟩

theorem Enumerates.append {A B : Tree.Place → Prop} {rs ss : List Rewrite}
    (hA : Enumerates o t A rs) (hB : Enumerates o t B ss) (hAB : ∀ p, A p → ¬B p) :
    Enumerates o t (fun p => A p ∨ B p) (rs ++ ss) := by
  obtain ⟨ps, hps, hmemA, hrs⟩ := hA
  obtain ⟨qs, hqs, hmemB, hss⟩ := hB
  refine ⟨ps ++ qs, ?_, ?_, List.rel_append hrs hss⟩
  · refine List.nodup_append.mpr ⟨hps, hqs, fun p hp q hq hpq => ?_⟩
    subst hpq
    exact hAB p ((hmemA p).mp hp) ((hmemB p).mp hq)
  · intro p
    rw [List.mem_append, hmemA, hmemB]

theorem Enumerates.child {c : Tree} {i : Nat} {A : Tree.Place → Prop} {rs : List Rewrite}
    (h : Enumerates o c A rs) (hc : t.children[i]? = some c) :
    Enumerates o t (fun p => ∃ q, p = i :: q ∧ A q) rs := by
  obtain ⟨ps, hnodup, hmem, hrs⟩ := h
  refine ⟨ps.map (i :: ·), ?_, ?_, ?_⟩
  · exact List.Nodup.map (fun p q hpq => List.tail_eq_of_cons_eq hpq) hnodup
  · intro p
    rw [List.mem_map]
    constructor
    · rintro ⟨q, hq, rfl⟩
      exact ⟨q, rfl, (hmem q).mp hq⟩
    · rintro ⟨q, rfl, hq⟩
      exact ⟨q, (hmem q).mpr hq, rfl⟩
  · rw [List.forall₂_map_left_iff]
    refine hrs.imp fun p r hr => ?_
    obtain ⟨n, s, j, slot, hn, hrest⟩ := hr
    exact ⟨n, s, j, slot, by rw [Tree.at?_cons_of_child hc, hn], hrest⟩

theorem enumerates_suffix {f : Nat → Tree → List Rewrite} {A : Nat → Tree.Place → Prop}
    {ts : List Tree} (b : Nat) (hts : ∀ i c, ts[i]? = some c → t.children[b + i]? = some c)
    (h : ∀ i c, ts[i]? = some c → Enumerates o c (A (b + i)) (f i c)) :
    Enumerates o t (fun p => ∃ i q, p = (b + i) :: q ∧ i < ts.length ∧ A (b + i) q)
      (ts.mapIdx f).flatten := by
  induction ts generalizing b f with
  | nil => exact Enumerates.empty (by rintro p ⟨i, q, -, hi, -⟩; exact absurd hi (by simp))
  | cons c ts ih =>
    have hhead := (h 0 c rfl).child (hts 0 c rfl)
    have htail := ih (f := fun i => f (i + 1)) (b + 1)
      (fun i d hd => by rw [Nat.add_right_comm]; exact hts (i + 1) d hd)
      (fun i d hd => by rw [Nat.add_right_comm]; exact h (i + 1) d hd)
    rw [List.mapIdx_cons, List.flatten_cons]
    refine (hhead.append htail ?_).congr ?_
    · rintro p ⟨q, rfl, -⟩ ⟨i, q', heq, -⟩
      have := List.head_eq_of_cons_eq heq
      omega
    · intro p
      constructor
      · rintro (⟨q, rfl, hq⟩ | ⟨i, q, rfl, hi, hq⟩)
        · exact ⟨0, q, rfl, by simp, hq⟩
        · refine ⟨i + 1, q, by rw [Nat.add_right_comm]; rfl, by simpa using hi, ?_⟩
          rw [Nat.add_right_comm] at hq
          exact hq
      · rintro ⟨i, q, rfl, hi, hq⟩
        cases i with
        | zero => exact Or.inl ⟨q, rfl, hq⟩
        | succ i =>
          refine Or.inr ⟨i, q, by rw [Nat.add_right_comm]; rfl, by simpa using hi, ?_⟩
          rw [Nat.add_right_comm]
          exact hq

theorem enumerates_children {f : Nat → Tree → List Rewrite} {A : Nat → Tree.Place → Prop}
    (h : ∀ i c, t.children[i]? = some c → Enumerates o c (A i) (f i c)) :
    Enumerates o t (fun p => ∃ i q, p = i :: q ∧ i < t.children.length ∧ A i q)
      (t.children.mapIdx f).flatten := by
  refine (enumerates_suffix (A := A) 0 (fun i c hc => ?_) (fun i c hc => ?_)).congr fun p => ?_
  · rw [Nat.zero_add]; exact hc
  · rw [Nat.zero_add]; exact h i c hc
  · simp only [Nat.zero_add]

/-! ## The walk -/

theorem slotPlaces_of_none {n : Tree} (h : select? o n = none) : slotPlaces o n = [] := by
  rw [slotPlaces, h]

theorem ne_nil_of_mem_slotPlaces {n : Tree} {r : Tree.Place} (h : r ∈ slotPlaces o n) :
    r ≠ [] := by
  unfold slotPlaces at h
  split at h
  · obtain ⟨i, -, hi⟩ := List.mem_filterMap.mp h
    obtain ⟨list, j, k, -, -, -, rfl⟩ := Tree.argumentPlace?_eq_some_iff.mp hi
    exact List.cons_ne_nil j [k]
  · cases h

theorem not_inSlot_nil : ¬InSlot o t [] := by
  rintro ⟨q, n, r, -, hr, hprefix⟩
  exact ne_nil_of_mem_slotPlaces hr (List.append_eq_nil_iff.mp (List.prefix_nil.mp hprefix)).2

/-- A place in a child lies in a slot of the node itself or in one further down. -/
theorem inSlot_cons_iff {c : Tree} {i : Nat} {p : Tree.Place} (hc : t.children[i]? = some c) :
    InSlot o t (i :: p) ↔ (∃ r ∈ slotPlaces o t, r <+: i :: p) ∨ InSlot o c p := by
  constructor
  · rintro ⟨q, n, r, hn, hr, hprefix⟩
    cases q with
    | nil =>
      obtain rfl := Option.some.inj hn
      exact Or.inl ⟨r, hr, hprefix⟩
    | cons j q =>
      rw [List.cons_append, List.cons_prefix_cons] at hprefix
      obtain ⟨rfl, hprefix⟩ := hprefix
      rw [Tree.at?_cons_of_child hc] at hn
      exact Or.inr ⟨q, n, r, hn, hr, hprefix⟩
  · rintro (⟨r, hr, hprefix⟩ | ⟨q, n, r, hn, hr, hprefix⟩)
    · exact ⟨[], t, r, rfl, hr, hprefix⟩
    · refine ⟨i :: q, n, r, by rw [Tree.at?_cons_of_child hc, hn], hr, ?_⟩
      exact List.cons_prefix_cons.mpr ⟨rfl, hprefix⟩

theorem selected_cons_iff {c : Tree} {i : Nat} {p : Tree.Place} (hc : t.children[i]? = some c) :
    Selected o t (i :: p) ↔ Selected o c p := by
  unfold Selected
  rw [Tree.at?_cons_of_child hc]

/-- The outermost places of a node are itself, if it is selected, and those of its children
that lie in no slot of its own. -/
theorem outermost_iff {p : Tree.Place} :
    Outermost o t p ↔ (p = [] ∧ ∃ s, select? o t = some s) ∨
      ∃ i q, p = i :: q ∧ i < t.children.length ∧ ∃ c, t.children[i]? = some c ∧
        Outermost o c q ∧ ∀ r ∈ slotPlaces o t, ¬r <+: i :: q := by
  constructor
  · rintro ⟨⟨n, s, hn, hs⟩, hslot⟩
    cases p with
    | nil =>
      obtain rfl := Option.some.inj hn
      exact Or.inl ⟨rfl, s, hs⟩
    | cons i q =>
      rw [Tree.at?_cons, Option.bind_eq_some_iff] at hn
      obtain ⟨c, hc, hn⟩ := hn
      rw [inSlot_cons_iff hc] at hslot
      have hlt := (List.getElem?_eq_some_iff.mp hc).1
      refine Or.inr ⟨i, q, rfl, hlt, c, hc, ⟨⟨n, s, hn, hs⟩, fun h => hslot (Or.inr h)⟩, ?_⟩
      intro r hr hprefix
      exact hslot (Or.inl ⟨r, hr, hprefix⟩)
  · rintro (⟨rfl, s, hs⟩ | ⟨i, q, rfl, -, c, hc, ⟨hselected, hslot⟩, hroot⟩)
    · exact ⟨⟨t, s, rfl, hs⟩, not_inSlot_nil⟩
    · refine ⟨(selected_cons_iff hc).mpr hselected, ?_⟩
      rw [inSlot_cons_iff hc]
      rintro (⟨r, hr, hprefix⟩ | h)
      · exact hroot r hr hprefix
      · exact hslot h

theorem enumerates_outermost_children {f : Nat → Tree → List Rewrite}
    (h : ∀ i c, t.children[i]? = some c →
      Enumerates o c (fun q => Outermost o c q ∧ ∀ r ∈ slotPlaces o t, ¬r <+: i :: q) (f i c)) :
    Enumerates o t (fun p => ∃ i q, p = i :: q ∧ i < t.children.length ∧
      ∃ c, t.children[i]? = some c ∧ Outermost o c q ∧ ∀ r ∈ slotPlaces o t, ¬r <+: i :: q)
      (t.children.mapIdx f).flatten := by
  refine enumerates_children (A := fun i q => ∃ c, t.children[i]? = some c ∧ Outermost o c q ∧
    ∀ r ∈ slotPlaces o t, ¬r <+: i :: q) fun i c hc => (h i c hc).congr fun q => ?_
  constructor
  · intro hq
    exact ⟨c, hc, hq⟩
  · rintro ⟨d, hd, hq⟩
    rw [hc, Option.some.injEq] at hd
    exact hd ▸ hq

theorem enumerates_collectOutside {list : Tree} {i k : Nat} (hkind : list.kind = .arguments)
    (hk : Tree.operandIndex? list.children i = some k)
    (h : ∀ c ∈ list.children, Enumerates o c (Outermost o c) (collect o c)) :
    Enumerates o list (fun q => Outermost o list q ∧ ¬[k] <+: q)
      (collectOutside o [i] 0 list.children) := by
  have hnone : select? o list = none := by
    unfold select?
    rw [hkind]
  have hplaces := slotPlaces_of_none hnone
  rw [collectOutside_eq_mapIdx o hk]
  refine (enumerates_children (A := fun j q => ∃ c, list.children[j]? = some c ∧
    Outermost o c q ∧ j ≠ k) fun j c hc => ?_).congr fun q => ?_
  · have hcongr (q : Tree.Place) : (j ≠ k ∧ Outermost o c q) ↔
        ∃ d, list.children[j]? = some d ∧ Outermost o d q ∧ j ≠ k := by
      simp [hc, and_comm]
    by_cases hj : j = k
    · rw [if_pos hj]
      refine Enumerates.empty fun q hq => ?_
      exact ((hcongr q).mpr hq).1 hj
    · rw [if_neg hj]
      refine (h c (List.mem_of_getElem? hc)).congr fun q => ?_
      rw [← hcongr]
      exact (and_iff_right hj).symm
  · rw [outermost_iff, hplaces, hnone]
    constructor
    · rintro ⟨j, q, rfl, hj, c, hc, hq, hjk⟩
      refine ⟨Or.inr ⟨j, q, rfl, hj, c, hc, hq, by simp⟩, ?_⟩
      rw [List.cons_prefix_cons]
      exact fun hprefix => hjk hprefix.1.symm
    · rintro ⟨⟨-, s, hs⟩ | ⟨j, q, rfl, hj, c, hc, hq, -⟩, hprefix⟩
      · cases hs
      · refine ⟨j, q, rfl, hj, c, hc, hq, fun hjk => hprefix ?_⟩
        exact List.cons_prefix_cons.mpr ⟨hjk.symm, List.nil_prefix⟩

/-- What a selected invocation contributes: its slot, and the walk of everything beside it. -/
theorem collect_of_selected {info : Tree.Info} {children : List Tree} {s : Selection}
    (h : select? o (.node info children) = some s) :
    ∃ list slot i j k, s.slots = [i] ∧ (Tree.node info children).callArguments[i]? = some slot ∧
      list.kind = .arguments ∧ children[j]? = some list ∧ list.children[k]? = some slot ∧
      Tree.operandIndex? list.children i = some k ∧
      slotPlaces o (.node info children) = [[j, k]] ∧
      collect o (.node info children) = ⟨s.kind, slot.span, lowerReflected o s.drop slot⟩ ::
        (children.mapIdx fun m c =>
          if m = j then collectOutside o [i] 0 list.children else collect o c).flatten := by
  obtain ⟨i, hslots, hi⟩ := select?_slot h
  have hslot := List.getElem?_eq_getElem hi
  have hplace := Tree.argumentPlace?_bind (.node info children) i
  rw [hslot, Option.bind_eq_some_iff] at hplace
  obtain ⟨r, hr, hat⟩ := hplace
  obtain ⟨list, j, k, hlist, hj, hk, rfl⟩ := Tree.argumentPlace?_eq_some_iff.mp hr
  obtain ⟨hkind, j', hj', hchild⟩ := Tree.argumentList?_eq_some hlist
  obtain rfl := Option.some.inj (hj.symm.trans hj')
  rw [Tree.at?_cons_of_child hchild, Tree.at?_cons, Option.bind_eq_some_iff] at hat
  obtain ⟨slot, hget, hat⟩ := hat
  obtain rfl := Option.some.inj hat
  refine ⟨list, _, i, j, k, hslots, hslot, hkind, hchild, hget, hk, ?_, ?_⟩
  · simp [slotPlaces, h, hslots, hr]
  · have hbeside := collectBeside_eq_mapIdx o [i] hj hchild hkind
    rw [collect, h]
    simp only [ofSelection, hslots, List.filterMap_cons, List.filterMap_nil, hslot,
      Option.map_some, List.singleton_append]
    exact congrArg _ hbeside

theorem enumerates_collect_node {info : Tree.Info} {children : List Tree}
    (ih : ∀ c ∈ children, Enumerates o c (Outermost o c) (collect o c) ∧
      ∀ d ∈ c.children, Enumerates o d (Outermost o d) (collect o d)) :
    Enumerates o (.node info children) (Outermost o (.node info children))
      (collect o (.node info children)) := by
  cases h : select? o (.node info children) with
  | none =>
    have hplaces := slotPlaces_of_none h
    have hbelow := enumerates_outermost_children (o := o) (t := .node info children)
      (f := fun _ c => collect o c) fun i c hc =>
        (ih c (List.mem_of_getElem? hc)).1.congr fun q => by simp [hplaces]
    rw [collect, h]
    simp only [collectAll_eq_mapIdx]
    refine hbelow.congr fun p => ?_
    rw [outermost_iff, h]
    simp
  | some s =>
    obtain ⟨list, slot, i, j, k, hslots, hslot, hkind, hchild, hget, hk, hplaces, hcollect⟩ :=
      collect_of_selected h
    have hroot : Enumerates o (.node info children) (· = [])
        [⟨s.kind, slot.span, lowerReflected o s.drop slot⟩] :=
      ⟨[[]], List.nodup_singleton _, fun p => List.mem_singleton,
        .cons ⟨_, s, i, slot, rfl, h, hslots, hslot, rfl⟩ .nil⟩
    have hbelow := enumerates_outermost_children (o := o) (t := .node info children)
      (f := fun m c => if m = j then collectOutside o [i] 0 list.children else collect o c) ?_
    · rw [hcollect]
      refine (hroot.append hbelow ?_).congr fun p => ?_
      · rintro p rfl ⟨m, q, hmq, -⟩
        cases hmq
      · rw [outermost_iff]
        simp [h]
    · intro m c hc
      rw [hplaces]
      by_cases hm : m = j
      · subst hm
        obtain rfl := Option.some.inj (hchild.symm.trans hc)
        rw [if_pos rfl]
        refine (enumerates_collectOutside hkind hk
          (ih list (List.mem_of_getElem? hchild)).2).congr fun q => ?_
        simp
      · rw [if_neg hm]
        refine (ih c (List.mem_of_getElem? hc)).1.congr fun q => ?_
        simp [Ne.symm hm]

/-- The walk meets each outermost selected invocation once, and rewrites nothing else. -/
theorem enumerates_collect (o : Oracle) (t : Tree) :
    Enumerates o t (Outermost o t) (collect o t) := by
  -- A selected invocation walks the nodes of its argument list itself, two levels down.
  induction t using Tree.induct_below with
  | node t ih =>
    obtain ⟨info, children⟩ := t
    exact enumerates_collect_node ih

/-! ## The spans of the rewrites -/

theorem Enumerates.exists_place {A : Tree.Place → Prop} {rs : List Rewrite} {r : Rewrite}
    (h : Enumerates o t A rs) (hr : r ∈ rs) : ∃ p, A p ∧ RewriteAt o t p r := by
  obtain ⟨ps, -, hmem, hrs⟩ := h
  have found : ∃ p ∈ ps, RewriteAt o t p r := by
    clear hmem
    induction hrs with
    | nil => cases hr
    | cons hhead _ ih =>
      rcases List.mem_cons.mp hr with rfl | hr
      · exact ⟨_, List.mem_cons_self, hhead⟩
      · obtain ⟨p, hp, hpr⟩ := ih hr
        exact ⟨p, List.mem_cons_of_mem _ hp, hpr⟩
  obtain ⟨p, hp, hpr⟩ := found
  exact ⟨p, (hmem p).mp hp, hpr⟩

theorem exists_slot_of_mem_collect {r : Rewrite} (hr : r ∈ collect o t) :
    ∃ (p : Tree.Place) (slot : Tree), t.at? p = some slot ∧ r.span = slot.span := by
  obtain ⟨p, -, n, s, i, slot, hn, -, -, hslot, rfl⟩ := (enumerates_collect o t).exists_place hr
  rw [← Tree.argumentPlace?_bind, Option.bind_eq_some_iff] at hslot
  obtain ⟨q, -, hq⟩ := hslot
  exact ⟨p ++ q, slot, by rw [Tree.at?_append, hn, Option.bind_some, hq], rfl⟩

theorem within_of_mem_collect (hplaced : t.Everywhere Tree.LaidOut) {r : Rewrite}
    (hr : r ∈ collect o t) : r.span.Within t.span := by
  obtain ⟨p, slot, hat, hspan⟩ := exists_slot_of_mem_collect hr
  rw [hspan]
  exact hplaced.within hat

theorem mem_flatten_mapIdx {ts : List Tree} {f : Nat → Tree → List Rewrite} {r : Rewrite} :
    r ∈ (ts.mapIdx f).flatten ↔ ∃ i c, ts[i]? = some c ∧ r ∈ f i c := by
  simp only [List.mem_flatten, List.mem_mapIdx]
  constructor
  · rintro ⟨_, ⟨i, hi, rfl⟩, hr⟩
    exact ⟨i, ts[i], List.getElem?_eq_getElem hi, hr⟩
  · rintro ⟨i, c, hc, hr⟩
    obtain ⟨hi, rfl⟩ := List.getElem?_eq_some_iff.mp hc
    exact ⟨_, ⟨i, hi, rfl⟩, hr⟩

theorem pairwise_flatten_mapIdx {f : Nat → Tree → List Rewrite} (hlaid : t.LaidOut)
    (hwithin : ∀ i c, t.children[i]? = some c → ∀ r ∈ f i c, r.span.Within c.span)
    (hapart : ∀ i c, t.children[i]? = some c → (f i c).Pairwise fun r s => r.span.Apart s.span) :
    (t.children.mapIdx f).flatten.Pairwise fun r s => r.span.Apart s.span := by
  rw [List.pairwise_flatten]
  constructor
  · intro rs hrs
    obtain ⟨i, hi, rfl⟩ := List.mem_mapIdx.mp hrs
    exact hapart i _ (List.getElem?_eq_getElem hi)
  · rw [List.pairwise_iff_getElem]
    intro i j hi hj hij r hr s hs
    rw [List.getElem_mapIdx] at hr hs
    rw [List.length_mapIdx] at hi hj
    have hci := List.getElem?_eq_getElem hi
    have hcj := List.getElem?_eq_getElem hj
    exact (hlaid.apart hci hcj (Nat.ne_of_lt hij)).within (hwithin i _ hci r hr)
      (hwithin j _ hcj s hs)

theorem mem_collectOutside {ts : List Tree} {i k : Nat} (hk : Tree.operandIndex? ts i = some k)
    {r : Rewrite} (hr : r ∈ collectOutside o [i] 0 ts) :
    ∃ m c, m ≠ k ∧ ts[m]? = some c ∧ r ∈ collect o c := by
  rw [collectOutside_eq_mapIdx o hk, mem_flatten_mapIdx] at hr
  obtain ⟨m, c, hc, hr⟩ := hr
  split at hr
  · cases hr
  · next hm => exact ⟨m, c, hm, hc, hr⟩

theorem collectOutside_apart {list : Tree} {i k : Nat} (hlist : list.Everywhere Tree.LaidOut)
    (hk : Tree.operandIndex? list.children i = some k)
    (h : ∀ c ∈ list.children, (collect o c).Pairwise fun r s => r.span.Apart s.span) :
    (collectOutside o [i] 0 list.children).Pairwise fun r s => r.span.Apart s.span := by
  rw [collectOutside_eq_mapIdx o hk]
  refine pairwise_flatten_mapIdx hlist.here (fun m c hc r hr => ?_) fun m c hc => ?_
  · split at hr
    · cases hr
    · exact within_of_mem_collect (hlist.child (List.mem_of_getElem? hc)) hr
  · split
    · exact List.Pairwise.nil
    · exact h c (List.mem_of_getElem? hc)

theorem slot_apart {list slot : Tree} {i j k : Nat} (hplaced : t.Everywhere Tree.LaidOut)
    (hchild : t.children[j]? = some list) (hget : list.children[k]? = some slot)
    (hk : Tree.operandIndex? list.children i = some k) {r : Rewrite} {m : Nat} {c : Tree}
    (hc : t.children[m]? = some c)
    (hr : r ∈ if m = j then collectOutside o [i] 0 list.children else collect o c) :
    slot.span.Apart r.span := by
  have hlist := hplaced.child (List.mem_of_getElem? hchild)
  split at hr
  case isTrue hm =>
    obtain ⟨m', d, hm', hd, hr⟩ := mem_collectOutside hk hr
    have hwithin := within_of_mem_collect (hlist.child (List.mem_of_getElem? hd)) hr
    exact (hlist.here.apart hget hd (Ne.symm hm')).within (Span.Within.refl _) hwithin
  case isFalse hm =>
    have hslot := hlist.here.2.1 slot (List.mem_of_getElem? hget)
    have hwithin := within_of_mem_collect (hplaced.child (List.mem_of_getElem? hc)) hr
    exact (hplaced.here.apart hchild hc (Ne.symm hm)).within hslot hwithin

theorem collect_apart_node {info : Tree.Info} {children : List Tree}
    (hplaced : (Tree.node info children).Everywhere Tree.LaidOut)
    (ih : ∀ c ∈ children, (collect o c).Pairwise (fun r s => r.span.Apart s.span) ∧
      ∀ d ∈ c.children, (collect o d).Pairwise fun r s => r.span.Apart s.span) :
    (collect o (.node info children)).Pairwise fun r s => r.span.Apart s.span := by
  have hwithin (m : Nat) (c : Tree) (hc : children[m]? = some c) :
      ∀ r ∈ collect o c, r.span.Within c.span :=
    fun r hr => within_of_mem_collect (hplaced.child (List.mem_of_getElem? hc)) hr
  cases h : select? o (.node info children) with
  | none =>
    rw [collect, h]
    simp only [collectAll_eq_mapIdx]
    exact pairwise_flatten_mapIdx hplaced.here hwithin
      fun m c hc => (ih c (List.mem_of_getElem? hc)).1
  | some s =>
    obtain ⟨list, slot, i, j, k, -, -, -, hchild, hget, hk, -, hcollect⟩ := collect_of_selected h
    have hmem := List.mem_of_getElem? hchild
    have hlist := hplaced.child hmem
    rw [hcollect, List.pairwise_cons]
    constructor
    · intro r hr
      obtain ⟨m, c, hc, hr⟩ := mem_flatten_mapIdx.mp hr
      exact slot_apart hplaced hchild hget hk hc hr
    · refine pairwise_flatten_mapIdx hplaced.here (fun m c hc r hr => ?_) fun m c hc => ?_
      · split at hr
        case isTrue hm =>
          subst hm
          obtain rfl := Option.some.inj (hchild.symm.trans hc)
          obtain ⟨m', d, -, hd, hr⟩ := mem_collectOutside hk hr
          have hd := List.mem_of_getElem? hd
          exact (within_of_mem_collect (hlist.child hd) hr).trans (hlist.here.2.1 d hd)
        case isFalse => exact hwithin m c hc r hr
      · split
        case isTrue => exact collectOutside_apart hlist hk (ih list hmem).2
        case isFalse => exact (ih c (List.mem_of_getElem? hc)).1

/-- In a tree that is laid out, the rewrites share no text. -/
theorem collect_apart (hplaced : t.Everywhere Tree.LaidOut) :
    (collect o t).Pairwise fun r s => r.span.Apart s.span := by
  induction t using Tree.induct_below with
  | node t ih =>
    obtain ⟨info, children⟩ := t
    refine collect_apart_node hplaced fun c hc => ?_
    have hchild := hplaced.child hc
    exact ⟨(ih c hc).1 hchild, fun d hd => (ih c hc).2 d hd (hchild.child hd)⟩

theorem inSourceOrder_before (hplaced : t.Everywhere Tree.LaidOut) :
    (inSourceOrder (collect o t)).Pairwise fun r s => r.span.Apart s.span ∧
      (r.span.start < r.span.stop → s.span.start < s.span.stop →
        r.span.Before s.span ∧ r.span.start < s.span.start) := by
  have hperm := (inSourceOrder_perm (collect o t)).symm
  have hapart := hperm.pairwise (collect_apart hplaced) fun h => h.symm
  refine (hapart.and (inSourceOrder_pairwise (collect o t))).imp fun h => ⟨h.1, fun hr hs => ?_⟩
  have hbefore := h.1.before hs h.2
  exact ⟨hbefore, UInt32.lt_of_lt_of_le hr hbefore⟩

/-- The rewrites are those of the selected invocations that lie in no slot of another, one
each, and a selection always has its slot.  Where siblings follow one another inside their
parent, the rewrites in source order are disjoint and strictly increasing; only spans that
cover no text have no order. -/
theorem collect_exactly_outermost (o : Oracle) (t : Tree) :
    Enumerates o t (Outermost o t) (collect o t) ∧
      (∀ n s, select? o n = some s → ∃ i, s.slots = [i] ∧ i < n.callArguments.length) ∧
      (t.Everywhere Tree.LaidOut → (inSourceOrder (collect o t)).Pairwise fun r s =>
        r.span.Apart s.span ∧ (r.span.start < r.span.stop → s.span.start < s.span.stop →
          r.span.Before s.span ∧ r.span.start < s.span.start)) :=
  ⟨enumerates_collect o t, fun _ _ h => select?_slot h, inSourceOrder_before⟩

/-- `reflect(f)` from byte `b` on, in the grammar field `field`. -/
def reflectCall (field : Option String) (b : UInt32) (f : String) : Tree :=
  .node ⟨.callExpression, field, true, ⟨b, b + 10⟩, "reflect(" ++ f ++ ")"⟩
    [.node ⟨.identifier, some "function", true, ⟨b, b + 7⟩, "reflect"⟩ [],
      .node ⟨.arguments, some "arguments", true, ⟨b + 7, b + 10⟩, "(" ++ f ++ ")"⟩
        [.node ⟨.unknown "(", none, false, ⟨b + 7, b + 8⟩, "("⟩ [],
          .node ⟨.identifier, none, true, ⟨b + 8, b + 9⟩, f⟩ [],
          .node ⟨.unknown ")", none, false, ⟨b + 9, b + 10⟩, ")"⟩ []]]

def nestedReflects : Tree :=
  .node ⟨.callExpression, none, true, ⟨0, 22⟩, "reflect(f)(reflect(g))"⟩
    [reflectCall (some "function") 0 "f",
      .node ⟨.arguments, some "arguments", true, ⟨10, 22⟩, "(reflect(g))"⟩
        [.node ⟨.unknown "(", none, false, ⟨10, 11⟩, "("⟩ [],
          reflectCall none 11 "g",
          .node ⟨.unknown ")", none, false, ⟨21, 22⟩, ")"⟩ []]]

theorem nestedReflects_before : nestedReflects.Everywhere Tree.LaidOut ∧
    (inSourceOrder (collect .noTypes nestedReflects)).Pairwise fun r s =>
      r.span.Apart s.span ∧ (r.span.start < r.span.stop → s.span.start < s.span.stop →
        r.span.Before s.span ∧ r.span.start < s.span.start) := by
  have hplaced : nestedReflects.Everywhere Tree.LaidOut := by decide
  exact ⟨hplaced, (collect_exactly_outermost .noTypes nestedReflects).2.2 hplaced⟩

end Rewrite
end Reify
