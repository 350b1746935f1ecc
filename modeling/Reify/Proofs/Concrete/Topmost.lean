/-
The syntax errors of a source unit are the topmost faults of its concrete tree.

A fault is a node at which the grammar recovered, an error node or a missing one.  The search
enters only nodes that are marked as holding a fault and stops at the first it meets.  Where
the marks are right it finds each fault that has none above it, once and in the order of the
tree (`reports_collect`), so a source unit is clean exactly if it has no fault.
-/
import Reify.Proofs.Concrete.Layout
import Reify.Transform

namespace Reify
namespace Concrete

/-! ## Places -/

@[elab_as_elim]
theorem induct {motive : Concrete → Prop}
    (node : ∀ info children, (∀ c ∈ children, motive c) → motive (.node info children)) :
    ∀ c, motive c
  | .node info children => node info children fun c _ => induct node c

def at? : Concrete → Tree.Place → Option Concrete
  | c, [] => some c
  | c, i :: p => c.children[i]?.bind fun d => d.at? p

@[simp] theorem at?_nil (c : Concrete) : c.at? [] = some c := rfl

theorem at?_cons_eq_some {c n : Concrete} {i : Nat} {p : Tree.Place} :
    c.at? (i :: p) = some n ↔ ∃ d, c.children[i]? = some d ∧ d.at? p = some n := by
  rw [at?, Option.bind_eq_some_iff]

theorem at?_append (c : Concrete) (p q : Tree.Place) :
    c.at? (p ++ q) = (c.at? p).bind fun n => n.at? q := by
  induction p generalizing c with
  | nil => rfl
  | cons i p ih =>
    rw [List.cons_append, at?, at?]
    cases c.children[i]? with
    | none => rfl
    | some d => exact ih d

theorem Everywhere.at? {P : Concrete → Prop} {c n : Concrete} (h : c.Everywhere P)
    {p : Tree.Place} (hn : c.at? p = some n) : n.Everywhere P := by
  induction p generalizing c with
  | nil =>
    obtain rfl := Option.some.inj hn
    exact h
  | cons i p ih =>
    obtain ⟨d, hd, hn⟩ := at?_cons_eq_some.mp hn
    exact ih (h.child (List.mem_of_getElem? hd)) hn

theorem everywhere_of_at? {P : Concrete → Prop} {c : Concrete}
    (h : ∀ p n, c.at? p = some n → P n) : c.Everywhere P := by
  induction c using induct with
  | node info children ih =>
    refine .node (h [] _ rfl) fun d hd => ih d hd fun p n hn => ?_
    obtain ⟨i, hi⟩ := List.mem_iff_getElem?.mp hd
    exact h (i :: p) n (at?_cons_eq_some.mpr ⟨d, hi, hn⟩)

theorem holdsEverywhere_iff {P : Concrete → Prop} [DecidablePred P] {c : Concrete} :
    holdsEverywhere P c = true ↔ c.Everywhere P := by
  refine ⟨everywhere_of_holdsEverywhere P, fun h => ?_⟩
  induction h with
  | node here below ih =>
    rw [holdsEverywhere, Bool.and_eq_true, decide_eq_true_iff, holdsInEach_eq, List.all_eq_true]
    exact ⟨here, ih⟩

instance (P : Concrete → Prop) [DecidablePred P] (c : Concrete) : Decidable (c.Everywhere P) :=
  decidable_of_iff _ holdsEverywhere_iff

/-! ## Faults -/

/-- Whether the grammar recovered at a node: it could not place the node's text, or it had to
suppose the token. -/
def Info.isFault (i : Info) : Bool := i.error || i.missing

def FaultAt (c : Concrete) (p : Tree.Place) : Prop :=
  ∃ n, c.at? p = some n ∧ n.info.isFault = true

def Topmost (c : Concrete) (p : Tree.Place) : Prop :=
  c.FaultAt p ∧ ∀ q, q <+: p → q ≠ p → ¬c.FaultAt q

def BelowError (c : Concrete) (p : Tree.Place) : Prop :=
  ∃ q n, q <+: p ∧ q ≠ p ∧ c.at? q = some n ∧ n.info.error = true

/-- The node is marked exactly if there is a fault at or below it. -/
def Marked (n : Concrete) : Prop := n.info.hasError = true ↔ ∃ p, n.FaultAt p

/-- A missing node is a token, with nothing below it, as recovery makes them. -/
def Bare (n : Concrete) : Prop := n.info.missing = true → n.children = []

/-- A node whose span runs forward and covers its children, which follow one another. -/
def InOrder (n : Concrete) : Prop :=
  n.info.start ≤ n.info.stop ∧
    (∀ c ∈ n.children, n.info.start ≤ c.info.start ∧ c.info.stop ≤ n.info.stop) ∧
    n.children.Pairwise fun a b => a.info.stop ≤ b.info.start

theorem exists_faultAt_iff {c : Concrete} :
    (∃ p, c.FaultAt p) ↔ ¬c.Everywhere fun n => n.info.isFault = false := by
  constructor
  · rintro ⟨p, n, hn, hfault⟩ h
    rw [(h.at? hn).here] at hfault
    cases hfault
  · intro h
    refine Classical.byContradiction fun hnone => h (everywhere_of_at? fun p n hn => ?_)
    rw [Bool.eq_false_iff]
    exact fun hfault => hnone ⟨p, n, hn, hfault⟩

instance (n : Concrete) : Decidable n.Marked :=
  decidable_of_iff (n.info.hasError = true ↔ ¬n.Everywhere fun m => m.info.isFault = false)
    (iff_congr Iff.rfl exists_faultAt_iff.symm)

instance (n : Concrete) : Decidable n.Bare := inferInstanceAs (Decidable (_ → _))

instance (n : Concrete) : Decidable n.InOrder := inferInstanceAs (Decidable (_ ∧ _ ∧ _))

theorem faultAt_nil {c : Concrete} : c.FaultAt [] ↔ c.info.isFault = true := by
  simp [FaultAt]

theorem faultAt_cons {c : Concrete} {i : Nat} {p : Tree.Place} :
    c.FaultAt (i :: p) ↔ ∃ d, c.children[i]? = some d ∧ d.FaultAt p := by
  simp only [FaultAt, at?_cons_eq_some]
  constructor
  · rintro ⟨n, ⟨d, hd, hn⟩, hfault⟩
    exact ⟨d, hd, n, hn, hfault⟩
  · rintro ⟨d, hd, n, hn, hfault⟩
    exact ⟨n, ⟨d, hd, hn⟩, hfault⟩

theorem topmost_of_fault {c : Concrete} (h : c.info.isFault = true) {p : Tree.Place} :
    c.Topmost p ↔ p = [] := by
  constructor
  · rintro ⟨-, habove⟩
    cases p with
    | nil => rfl
    | cons i p =>
      exact absurd (faultAt_nil.mpr h) (habove [] List.nil_prefix (List.cons_ne_nil i p).symm)
  · rintro rfl
    exact ⟨faultAt_nil.mpr h, fun q hq hne => absurd (List.prefix_nil.mp hq) hne⟩

/-- The topmost faults of a node that is none are those of its children. -/
theorem topmost_of_sound {c : Concrete} (h : c.info.isFault = false) {p : Tree.Place} :
    c.Topmost p ↔ ∃ i q d, p = i :: q ∧ c.children[i]? = some d ∧ d.Topmost q := by
  constructor
  · rintro ⟨hfault, habove⟩
    cases p with
    | nil =>
      rw [faultAt_nil, h] at hfault
      cases hfault
    | cons i q =>
      obtain ⟨d, hd, hfault⟩ := faultAt_cons.mp hfault
      refine ⟨i, q, d, rfl, hd, hfault, fun r hr hne hbad => ?_⟩
      refine habove (i :: r) (List.cons_prefix_cons.mpr ⟨rfl, hr⟩) ?_
        (faultAt_cons.mpr ⟨d, hd, hbad⟩)
      exact fun heq => hne (List.tail_eq_of_cons_eq heq)
  · rintro ⟨i, q, d, rfl, hd, hfault, habove⟩
    refine ⟨faultAt_cons.mpr ⟨d, hd, hfault⟩, fun r hr hne hbad => ?_⟩
    cases r with
    | nil =>
      rw [faultAt_nil, h] at hbad
      cases hbad
    | cons j r =>
      obtain ⟨rfl, htail⟩ := List.cons_prefix_cons.mp hr
      obtain ⟨e, he, hbad⟩ := faultAt_cons.mp hbad
      rw [hd, Option.some.injEq] at he
      subst he
      exact habove r htail (fun heq => hne (by rw [heq])) hbad

/-- Where missing nodes are bare, only an error node can be above a fault. -/
theorem topmost_iff {c : Concrete} (h : c.Everywhere Bare) {p : Tree.Place} :
    c.Topmost p ↔ c.FaultAt p ∧ ¬c.BelowError p := by
  constructor
  · rintro ⟨hfault, habove⟩
    refine ⟨hfault, ?_⟩
    rintro ⟨q, n, hq, hne, hn, herror⟩
    exact habove q hq hne ⟨n, hn, by simp [Info.isFault, herror]⟩
  · rintro ⟨hfault, hbelow⟩
    refine ⟨hfault, fun q hq hne hbad => ?_⟩
    obtain ⟨n, hn, hbad⟩ := hbad
    rw [Info.isFault, Bool.or_eq_true] at hbad
    rcases hbad with herror | hmissing
    · exact hbelow ⟨q, n, hq, hne, hn, herror⟩
    · -- Nothing stands below a missing node, so `p` is its own place.
      have hbare : n.children = [] := (h.at? hn).here hmissing
      obtain ⟨r, rfl⟩ := hq
      obtain ⟨m, hm, -⟩ := hfault
      rw [at?_append, hn, Option.bind_some] at hm
      cases r with
      | nil => exact hne (List.append_nil q).symm
      | cons i r =>
        obtain ⟨d, hd, -⟩ := at?_cons_eq_some.mp hm
        rw [hbare] at hd
        cases hd

/-! ## The order of places -/

theorem Everywhere.within {c n : Concrete} (h : c.Everywhere InOrder) {p : Tree.Place}
    (hn : c.at? p = some n) : c.info.start ≤ n.info.start ∧ n.info.stop ≤ c.info.stop := by
  induction p generalizing c with
  | nil =>
    obtain rfl := Option.some.inj hn
    exact ⟨Nat.le_refl _, Nat.le_refl _⟩
  | cons i p ih =>
    obtain ⟨d, hd, hn⟩ := at?_cons_eq_some.mp hn
    have hmem := List.mem_of_getElem? hd
    obtain ⟨hstart, hstop⟩ := ih (h.child hmem) hn
    obtain ⟨hstart', hstop'⟩ := h.here.2.1 d hmem
    exact ⟨Nat.le_trans hstart' hstart, Nat.le_trans hstop hstop'⟩

theorem Everywhere.start_le {c n m : Concrete} (h : c.Everywhere InOrder) {p q : Tree.Place}
    (hn : c.at? p = some n) (hm : c.at? q = some m) (hpq : p < q) :
    n.info.start ≤ m.info.start := by
  induction p generalizing c q with
  | nil =>
    obtain rfl := Option.some.inj hn
    exact (h.within hm).1
  | cons i p ih =>
    cases q with
    | nil => exact absurd hpq (List.not_lt_nil _)
    | cons j q =>
      obtain ⟨d, hd, hnd⟩ := at?_cons_eq_some.mp hn
      obtain ⟨e, he, hme⟩ := at?_cons_eq_some.mp hm
      have hdmem := List.mem_of_getElem? hd
      have hemem := List.mem_of_getElem? he
      rcases List.cons_lt_cons_iff.mp hpq with hij | ⟨rfl, hlater⟩
      · -- The places part here, so the nodes lie in siblings.
        obtain ⟨hi, rfl⟩ := List.getElem?_eq_some_iff.mp hd
        obtain ⟨hj, rfl⟩ := List.getElem?_eq_some_iff.mp he
        have hsiblings := List.pairwise_iff_getElem.mp h.here.2.2 i j hi hj hij
        have hforward := ((h.child hdmem).at? hnd).here.1
        have hinside := ((h.child hdmem).within hnd).2
        have hinside' := ((h.child hemem).within hme).1
        omega
      · rw [hd, Option.some.injEq] at he
        subst he
        exact ih (h.child hdmem) hnd hme hlater

end Concrete

/-! ## The search -/

namespace SyntaxError

open Concrete

def ofFault (file : String) (source : List Char) (parent : Option Info) (i : Info) :
    SyntaxError :=
  if i.error then ofError file source parent i else ofMissing file source parent i

/-- The error that the node at a place stands for, told with the node above it. -/
def at? (file : String) (source : List Char) (parent : Option Info) :
    Concrete → Tree.Place → Option SyntaxError
  | c, [] => some (ofFault file source parent c.info)
  | c, i :: p => c.children[i]?.bind fun d => at? file source (some c.info) d p

/-- The list `es` holds one error for each place that satisfies `A`, and no other.  Places are
ordered step by step, so a node comes before what is below it and that before later siblings. -/
def Reports (file : String) (source : List Char) (parent : Option Info) (c : Concrete)
    (A : Tree.Place → Prop) (es : List SyntaxError) : Prop :=
  ∃ ps : List Tree.Place, ps.Pairwise (· < ·) ∧ (∀ p, p ∈ ps ↔ A p) ∧
    ps.map (at? file source parent c) = es.map some

variable {file : String} {source : List Char} {parent : Option Info} {c : Concrete}

theorem Reports.congr {A B : Tree.Place → Prop} {es : List SyntaxError}
    (h : Reports file source parent c A es) (hAB : ∀ p, A p ↔ B p) :
    Reports file source parent c B es := by
  obtain ⟨ps, hordered, hmem, hes⟩ := h
  exact ⟨ps, hordered, fun p => (hmem p).trans (hAB p), hes⟩

theorem Reports.empty {A : Tree.Place → Prop} (h : ∀ p, ¬A p) :
    Reports file source parent c A [] :=
  ⟨[], .nil, fun p => by simp [h p], rfl⟩

/-- What is reported in a child comes before what is reported in later ones. -/
theorem Reports.child_append {d : Concrete} {b : Nat} {A B : Tree.Place → Prop}
    {es fs : List SyntaxError} (hd : c.children[b]? = some d)
    (h : Reports file source (some c.info) d A es)
    (hrest : Reports file source parent c B fs)
    (hlater : ∀ p, B p → ∃ i q, p = i :: q ∧ b < i) :
    Reports file source parent c (fun p => (∃ q, p = b :: q ∧ A q) ∨ B p) (es ++ fs) := by
  obtain ⟨ps, hps, hmemA, hes⟩ := h
  obtain ⟨qs, hqs, hmemB, hfs⟩ := hrest
  refine ⟨ps.map (b :: ·) ++ qs, ?_, fun p => ?_, ?_⟩
  · refine List.pairwise_append.mpr ⟨?_, hqs, fun p hp q hq => ?_⟩
    · exact List.pairwise_map.mpr (hps.imp fun hlt => List.cons_lt_cons_iff.mpr (.inr ⟨rfl, hlt⟩))
    · obtain ⟨r, -, rfl⟩ := List.mem_map.mp hp
      obtain ⟨i, s, rfl, hi⟩ := hlater q ((hmemB q).mp hq)
      exact List.cons_lt_cons_iff.mpr (.inl hi)
  · rw [List.mem_append, List.mem_map, hmemB]
    refine or_congr_left ?_
    constructor
    · rintro ⟨q, hq, rfl⟩
      exact ⟨q, rfl, (hmemA q).mp hq⟩
    · rintro ⟨q, rfl, hq⟩
      exact ⟨q, (hmemA q).mpr hq, rfl⟩
  · have hbelow (q : Tree.Place) :
        at? file source parent c (b :: q) = at? file source (some c.info) d q := by
      rw [at?, hd, Option.bind_some]
    rw [List.map_append, List.map_append, ← hes, ← hfs, List.map_map]
    simp only [Function.comp_def, hbelow]

theorem reports_collectIn {cs : List Concrete} (b : Nat)
    (hcs : ∀ i d, cs[i]? = some d → c.children[b + i]? = some d)
    (hmarked : ∀ d ∈ cs, d.Marked)
    (h : ∀ d ∈ cs, Reports file source (some c.info) d d.Topmost
      (collect file source (some c.info) d)) :
    Reports file source parent c
      (fun p => ∃ i q d, p = (b + i) :: q ∧ cs[i]? = some d ∧ d.Topmost q)
      (collectIn file source c.info cs) := by
  induction cs generalizing b with
  | nil => exact .empty (by rintro p ⟨i, q, d, -, hd, -⟩; cases hd)
  | cons d cs ih =>
    rw [List.forall_mem_cons] at hmarked h
    have hrest := ih (b + 1)
      (fun i e he => by rw [Nat.add_right_comm]; exact hcs (i + 1) e he) hmarked.2 h.2
    have hhead : Reports file source (some c.info) d d.Topmost
        (if d.info.hasError || d.info.missing then collect file source (some c.info) d
          else []) := by
      split
      · exact h.1
      · next hskip =>
        -- A child that is not entered holds no fault at all.
        rw [Bool.not_eq_true, Bool.or_eq_false_iff] at hskip
        refine .empty fun p hp => ?_
        have hmark := hmarked.1.mpr ⟨p, hp.1⟩
        rw [hskip.1] at hmark
        cases hmark
    obtain ⟨info, children⟩ := d
    rw [collectIn]
    refine ((hhead.child_append (hcs 0 _ rfl) hrest ?_)).congr fun p => ?_
    · rintro p ⟨i, q, d, rfl, -⟩
      exact ⟨_, q, rfl, by omega⟩
    · constructor
      · rintro (⟨q, rfl, hq⟩ | ⟨i, q, d, rfl, hd, hq⟩)
        · exact ⟨0, q, _, rfl, rfl, hq⟩
        · exact ⟨i + 1, q, d, by rw [Nat.add_right_comm]; rfl, hd, hq⟩
      · rintro ⟨i, q, d, rfl, hd, hq⟩
        cases i with
        | zero =>
          obtain rfl := Option.some.inj hd
          exact .inl ⟨q, rfl, hq⟩
        | succ i => exact .inr ⟨i, q, d, by rw [Nat.add_right_comm]; rfl, hd, hq⟩

theorem collect_of_fault {children : List Concrete} {i : Info} (h : i.isFault = true) :
    collect file source parent (.node i children) = [ofFault file source parent i] := by
  rw [Info.isFault, Bool.or_eq_true] at h
  rw [collect, ofFault]
  split
  · rfl
  · next herror => rw [if_pos (h.resolve_left herror)]

theorem collect_of_sound {children : List Concrete} {i : Info} (h : i.isFault = false) :
    collect file source parent (.node i children) = collectIn file source i children := by
  rw [Info.isFault, Bool.or_eq_false_iff] at h
  rw [collect, h.1, h.2]
  rfl

/-- The search meets each topmost fault once and in order, and reports nothing else. -/
theorem reports_collect (hmarked : c.Everywhere Marked) :
    Reports file source parent c c.Topmost (collect file source parent c) := by
  induction c using Concrete.induct generalizing parent with
  | node info children ih =>
    cases hfault : info.isFault with
    | true =>
      rw [collect_of_fault hfault]
      refine ⟨[[]], List.pairwise_singleton _ _, fun p => ?_, rfl⟩
      rw [List.mem_singleton, topmost_of_fault (c := .node info children) hfault]
    | false =>
      rw [collect_of_sound hfault]
      have hbelow : Reports file source parent (.node info children)
          (fun p => ∃ i q d, p = (0 + i) :: q ∧ children[i]? = some d ∧ d.Topmost q)
          (collectIn file source info children) :=
        reports_collectIn (c := .node info children) 0 (fun i d hd => by rwa [Nat.zero_add])
          (fun d hd => (hmarked.child hd).here) fun d hd => ih d hd (hmarked.child hd)
      refine hbelow.congr fun p => ?_
      rw [topmost_of_sound (c := .node info children) hfault]
      simp only [Nat.zero_add]
      rfl

theorem span?_at? {p : Tree.Place} {e : SyntaxError} (h : at? file source parent c p = some e) :
    ∃ n s, c.at? p = some n ∧ e.span? = some s ∧ s.offset = n.info.start := by
  induction p generalizing c parent with
  | nil =>
    obtain rfl := Option.some.inj h
    rw [ofFault]
    split
    · exact ⟨c, _, rfl, rfl, rfl⟩
    · rw [ofMissing]
      split <;> exact ⟨c, _, rfl, rfl, rfl⟩
  | cons i p ih =>
    rw [at?, Option.bind_eq_some_iff] at h
    obtain ⟨d, hd, h⟩ := h
    obtain ⟨n, s, hn, hs⟩ := ih h
    exact ⟨n, s, at?_cons_eq_some.mpr ⟨d, hd, hn⟩, hs⟩

/-- Both errors are somewhere, and the first does not start after the second. -/
def StartsBefore (a b : SyntaxError) : Prop :=
  ∃ s t, a.span? = some s ∧ b.span? = some t ∧ s.offset ≤ t.offset

/-- In a tree in order, what is reported first does not start after what is reported later. -/
theorem Reports.startsBefore {A : Tree.Place → Prop} {es : List SyntaxError}
    (h : Reports file source parent c A es) (hordered : c.Everywhere InOrder) :
    es.Pairwise StartsBefore := by
  obtain ⟨ps, hps, -, hes⟩ := h
  have hplaces : (ps.map (at? file source parent c)).Pairwise
      fun x y => ∀ a b, x = some a → y = some b → StartsBefore a b := by
    refine List.pairwise_map.mpr (hps.imp fun {p q} hpq a b ha hb => ?_)
    obtain ⟨n, s, hn, hs, hstart⟩ := span?_at? ha
    obtain ⟨m, t, hm, ht, hstart'⟩ := span?_at? hb
    refine ⟨s, t, hs, ht, ?_⟩
    rw [hstart, hstart']
    exact hordered.start_le hn hm hpq
  rw [hes, List.pairwise_map] at hplaces
  exact hplaces.imp fun h => h _ _ rfl rfl

theorem Reports.eq_nil_iff {A : Tree.Place → Prop} {es : List SyntaxError}
    (h : Reports file source parent c A es) : es = [] ↔ ∀ p, ¬A p := by
  obtain ⟨ps, -, hmem, hes⟩ := h
  rw [← List.map_eq_nil_iff (f := some), ← hes, List.map_eq_nil_iff, List.eq_nil_iff_forall_not_mem]
  simp only [hmem]

end SyntaxError

namespace Concrete

open SyntaxError

theorem FaultAt.exists_topmost {c : Concrete} {p : Tree.Place} (h : c.FaultAt p) :
    ∃ q, q <+: p ∧ c.Topmost q := by
  induction p generalizing c with
  | nil => exact ⟨[], List.nil_prefix, (topmost_of_fault (faultAt_nil.mp h)).mpr rfl⟩
  | cons i p ih =>
    cases hfault : c.info.isFault with
    | true => exact ⟨[], List.nil_prefix, (topmost_of_fault hfault).mpr rfl⟩
    | false =>
      obtain ⟨d, hd, h⟩ := faultAt_cons.mp h
      obtain ⟨q, hq, htop⟩ := ih h
      exact ⟨i :: q, List.cons_prefix_cons.mpr ⟨rfl, hq⟩,
        (topmost_of_sound hfault).mpr ⟨i, q, d, rfl, hd, htop⟩⟩

theorem forall_not_topmost_iff {c : Concrete} :
    (∀ p, ¬c.Topmost p) ↔ ∀ p, ¬c.FaultAt p := by
  constructor
  · intro h p hp
    obtain ⟨q, -, hq⟩ := hp.exists_topmost
    exact h q hq
  · exact fun h p hp => h p hp.1

end Concrete

namespace Parsed

open Concrete SyntaxError

variable {c : Concrete}

theorem reports_errors (file source : String) (hmarked : c.Everywhere Marked) :
    Reports file source.toList none c c.Topmost (ofConcrete file source c).errors := by
  unfold ofConcrete
  dsimp only
  split
  · exact reports_collect hmarked
  · next hclean =>
    exact .empty fun p hp => hclean (hmarked.here.mpr ⟨p, hp.1⟩)

theorem errors_eq_nil_iff (file source : String) (hmarked : c.Everywhere Marked) :
    (ofConcrete file source c).errors = [] ↔ ∀ p, ¬c.FaultAt p :=
  (reports_errors file source hmarked).eq_nil_iff.trans forall_not_topmost_iff

end Parsed

theorem Transformer.exists_transform_iff (f : Transformer) {grammar : Grammar} {path : Path}
    {source : String} {c : Concrete} (hgrammar : grammar (.ofPath path) source = .ok c)
    (hexcluded : f.exclusions.excludes path = false) :
    (∃ out, f.transform grammar path source = .ok out) ↔
      (Parsed.ofConcrete path.text source c).errors = [] := by
  have hparsed : Parsed.ofPath grammar path source =
      ⟨some (c.toTree source), (Parsed.ofConcrete path.text source c).errors⟩ := by
    rw [Parsed.ofPath, hgrammar]
    rfl
  unfold transform
  rw [hexcluded, hparsed, if_neg Bool.false_ne_true]
  cases (Parsed.ofConcrete path.text source c).errors with
  | nil => exact ⟨fun _ => rfl, fun _ => ⟨_, rfl⟩⟩
  | cons e es =>
    constructor
    · rintro ⟨out, hout⟩
      cases hout
    · intro h
      cases h

namespace Parsed

open Concrete SyntaxError

/-- Where nodes are marked exactly as they hold a fault, a source unit has one error for each
topmost fault of its tree, in pre-order, and no other; a missing node being a token, these are
the error nodes and missing nodes below no error node.  Where siblings follow one another, no
error starts before an earlier one.  So a source unit is clean, and is transformed unless it is
excluded, exactly if its tree has neither an error node nor a missing one. -/
theorem errors_exactly_topmost (file source : String) {c : Concrete}
    (hmarked : c.Everywhere Marked) :
    Reports file source.toList none c c.Topmost (ofConcrete file source c).errors ∧
      (c.Everywhere Bare → Reports file source.toList none c
        (fun p => c.FaultAt p ∧ ¬c.BelowError p) (ofConcrete file source c).errors) ∧
      (c.Everywhere InOrder → (ofConcrete file source c).errors.Pairwise StartsBefore) ∧
      ((ofConcrete file source c).isClean = true ↔ ∀ p, ¬c.FaultAt p) ∧
      ∀ (f : Transformer) (grammar : Grammar) (path : Path),
        grammar (.ofPath path) source = .ok c → f.exclusions.excludes path = false →
          ((∃ out, f.transform grammar path source = .ok out) ↔ ∀ p, ¬c.FaultAt p) := by
  have hreports := reports_errors file source hmarked
  refine ⟨hreports, fun hbare => hreports.congr fun p => topmost_iff hbare,
    hreports.startsBefore, ?_, fun f grammar path hgrammar hexcluded => ?_⟩
  · rw [← errors_eq_nil_iff file source hmarked, isClean, Bool.and_eq_true, List.isEmpty_iff]
    exact and_iff_right rfl
  · rw [f.exists_transform_iff hgrammar hexcluded, errors_eq_nil_iff path.text source hmarked]

def token (name : String) (start : Nat) : Concrete :=
  .node ⟨name, none, false, false, false, false, start, start + 1⟩ []

def supposed (name : String) (start : Nat) : Concrete :=
  .node ⟨name, none, false, true, false, true, start, start⟩ []

/-- The tree of `@(;f(1;`: an error node, with a missing token inside, and an open call. -/
def brokenCall : Concrete :=
  .node ⟨"program", none, true, false, false, true, 0, 7⟩
    [.node ⟨"ERROR", none, true, false, true, true, 0, 3⟩
        [token "@" 0, token "(" 1, supposed ")" 2, token ";" 2],
      .node ⟨"expression_statement", none, true, false, false, true, 3, 7⟩
        [.node ⟨"call_expression", none, true, false, false, true, 3, 6⟩
          [.node ⟨"identifier", some "function", true, false, false, false, 3, 4⟩ [],
            .node ⟨"arguments", some "arguments", true, false, false, true, 4, 6⟩
              [token "(" 4, .node ⟨"number", none, true, false, false, false, 5, 6⟩ [],
                supposed ")" 6]],
          token ";" 6]]

theorem brokenCall_errors_topmost :
    brokenCall.Everywhere Marked ∧
      (ofConcrete "a.ts" "@(;f(1;" brokenCall).errors =
        [.unexpected "a.ts" "@(;" "source unit" ⟨0, 3⟩, .unclosed "a.ts" '(' ⟨4, 1⟩ ⟨6, 0⟩] ∧
      (ofConcrete "a.ts" "@(;f(1;" brokenCall).errors.Pairwise StartsBefore ∧
      (ofConcrete "a.ts" "@(;f(1;" brokenCall).isClean = false := by
  have hmarked : brokenCall.Everywhere Marked := by decide
  obtain ⟨-, -, hordered, -⟩ := errors_exactly_topmost "a.ts" "@(;f(1;" hmarked
  exact ⟨hmarked, by decide, hordered (by decide), by decide⟩

end Parsed
end Reify
