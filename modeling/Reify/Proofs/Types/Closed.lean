/-
Validated declarations leave no type dangling.

`RefAt d p owner r` says that `d` names the type `r` at the place `p` on behalf of `owner`.
Places are lists of numbers, ordered like the references are checked: all bindings, then type by
type its properties, statics, result and element.  Validation reports the reference at the first
place where a name is unknown, and none if there is no such place.  Then every answer of the
oracle is a known type, and so is whatever is asked of such an answer.
-/
import Mathlib.Data.List.Lex
import Mathlib.Data.List.Nodup
import Reify.Proofs.Lowering.Form
import Reify.Types.Declared

namespace Reify

/-! ## Lists by places -/

/-- The list `as` holds, in the order of their places, the items that stand at a place. -/
def Lists {α : Type} (At : List Nat → α → Prop) (as : List α) : Prop :=
  ∃ ls : List (List Nat × α), ls.Pairwise (fun x y => x.1 < y.1) ∧
    (∀ p a, (p, a) ∈ ls ↔ At p a) ∧ ls.map Prod.snd = as

namespace Lists

variable {α β : Type} {A B : List Nat → α → Prop} {as bs : List α}

theorem congr (h : Lists A as) (hAB : ∀ p a, A p a ↔ B p a) : Lists B as := by
  obtain ⟨ls, hordered, hmem, has⟩ := h
  exact ⟨ls, hordered, fun p a => (hmem p a).trans (hAB p a), has⟩

theorem nil (h : ∀ p a, ¬A p a) : Lists A [] :=
  ⟨[], .nil, fun p a => by simp [h p a], rfl⟩

theorem singleton (p : List Nat) (a : α) : Lists (fun q b => q = p ∧ b = a) [a] :=
  ⟨[(p, a)], List.pairwise_singleton _ _, fun q b => by simp, rfl⟩

theorem append (hA : Lists A as) (hB : Lists B bs)
    (hbefore : ∀ p a q b, A p a → B q b → p < q) :
    Lists (fun p a => A p a ∨ B p a) (as ++ bs) := by
  obtain ⟨ls, hls, hmemA, rfl⟩ := hA
  obtain ⟨ms, hms, hmemB, rfl⟩ := hB
  refine ⟨ls ++ ms, List.pairwise_append.mpr ⟨hls, hms, ?_⟩, fun p a => ?_, List.map_append⟩
  · rintro ⟨p, a⟩ ha ⟨q, b⟩ hb
    exact hbefore p a q b ((hmemA p a).mp ha) ((hmemB q b).mp hb)
  · rw [List.mem_append, hmemA, hmemB]

theorem below (h : Lists A as) (i : Nat) : Lists (fun p a => ∃ q, p = i :: q ∧ A q a) as := by
  obtain ⟨ls, hls, hmem, rfl⟩ := h
  refine ⟨ls.map fun x => (i :: x.1, x.2), ?_, fun p a => ?_, by rw [List.map_map]; rfl⟩
  · exact List.pairwise_map.mpr (hls.imp fun hlt => List.cons_lt_cons_iff.mpr (.inr ⟨rfl, hlt⟩))
  · rw [List.mem_map]
    constructor
    · rintro ⟨⟨q, b⟩, hb, heq⟩
      obtain ⟨rfl, rfl⟩ := Prod.mk.inj heq
      exact ⟨q, rfl, (hmem q b).mp hb⟩
    · rintro ⟨q, rfl, ha⟩
      exact ⟨(q, a), (hmem q a).mpr ha, rfl⟩

/-- What each entry of a list contributes stands one step below the index of the entry. -/
theorem flatMap {f : β → List α} {At : β → List Nat → α → Prop} (h : ∀ x, Lists (At x) (f x))
    (xs : List β) :
    Lists (fun p a => ∃ i x q, xs[i]? = some x ∧ p = i :: q ∧ At x q a) (xs.flatMap f) := by
  suffices from_index : ∀ b, Lists
      (fun p a => ∃ i x q, xs[i]? = some x ∧ p = (b + i) :: q ∧ At x q a) (xs.flatMap f) by
    simpa only [Nat.zero_add] using from_index 0
  induction xs with
  | nil => exact fun b => .nil (by rintro p a ⟨i, x, q, hx, -⟩; cases hx)
  | cons x xs ih =>
    intro b
    rw [List.flatMap_cons]
    refine (((h x).below b).append (ih (b + 1)) ?_).congr fun p a => ?_
    · rintro p a q c ⟨r, rfl, -⟩ ⟨i, y, s, -, rfl, -⟩
      exact List.cons_lt_cons_iff.mpr (.inl (by omega))
    · constructor
      · rintro (⟨q, rfl, ha⟩ | ⟨i, y, q, hy, rfl, ha⟩)
        · exact ⟨0, x, q, rfl, rfl, ha⟩
        · exact ⟨i + 1, y, q, hy, by rw [Nat.add_right_comm]; rfl, ha⟩
      · rintro ⟨i, y, q, hy, rfl, ha⟩
        cases i with
        | zero =>
          obtain rfl := Option.some.inj hy
          exact .inl ⟨q, rfl, ha⟩
        | succ i => exact .inr ⟨i, y, q, hy, by rw [Nat.add_right_comm]; rfl, ha⟩

theorem map (f : β → α) (xs : List β) :
    Lists (fun p a => ∃ i x, xs[i]? = some x ∧ p = [i] ∧ a = f x) (xs.map f) := by
  rw [List.map_eq_flatMap]
  refine (Lists.flatMap (fun x => Lists.singleton [] (f x)) xs).congr fun p a => ?_
  constructor
  · rintro ⟨i, x, q, hx, rfl, rfl, rfl⟩
    exact ⟨i, x, hx, rfl, rfl⟩
  · rintro ⟨i, x, hx, rfl, rfl⟩
    exact ⟨i, x, [], hx, rfl, rfl, rfl⟩

theorem toList (f : β → α) (x? : Option β) :
    Lists (fun p a => ∃ x, x? = some x ∧ p = [] ∧ a = f x) (x?.toList.map f) := by
  cases x? with
  | none => exact .nil (by rintro p a ⟨x, hx, -⟩; cases hx)
  | some x =>
    refine (Lists.singleton [] (f x)).congr fun p a => ?_
    simp

theorem mem_iff (h : Lists A as) {a : α} : a ∈ as ↔ ∃ p, A p a := by
  obtain ⟨ls, -, hmem, rfl⟩ := h
  simp [hmem]

theorem eq_of_mem {ls : List (List Nat × α)} (h : ls.Pairwise fun x y => x.1 < y.1)
    {p : List Nat} {a b : α} (ha : (p, a) ∈ ls) (hb : (p, b) ∈ ls) : a = b := by
  have hplaces : (ls.map Prod.fst).Nodup := List.pairwise_map.mpr (h.imp fun hlt => ne_of_lt hlt)
  exact (Prod.mk.inj (List.inj_on_of_nodup_map hplaces ha hb rfl)).2

/-- The first item that passes a test is the one that passes it at the first place. -/
theorem find?_eq_some_iff (h : Lists A as) (test : α → Bool) {a : α} :
    as.find? test = some a ↔
      ∃ p, A p a ∧ test a = true ∧ ∀ q b, q < p → A q b → test b = false := by
  obtain ⟨ls, hordered, hmem, rfl⟩ := h
  have first {x : List Nat × α} (hx : ls.find? (test ∘ Prod.snd) = some x) :
      A x.1 x.2 ∧ test x.2 = true ∧ ∀ q b, q < x.1 → A q b → test b = false := by
    obtain ⟨htest, before, after, rfl, hbefore⟩ := List.find?_eq_some_iff_append.mp hx
    refine ⟨(hmem _ _).mp (by simp), htest, fun q b hlt hb => ?_⟩
    rcases List.mem_append.mp ((hmem q b).mpr hb) with hq | hq
    · simpa using hbefore _ hq
    · have hlater := (List.pairwise_cons.mp (List.pairwise_append.mp hordered).2.1).1
      rcases List.mem_cons.mp hq with rfl | hq
      · exact absurd hlt (lt_irrefl _)
      · exact absurd hlt (lt_asymm (hlater _ hq))
  rw [List.find?_map, Option.map_eq_some_iff]
  constructor
  · rintro ⟨x, hx, rfl⟩
    exact ⟨x.1, first hx⟩
  · rintro ⟨p, ha, htest, hfirst⟩
    have hsome : (ls.find? (test ∘ Prod.snd)).isSome = true :=
      List.find?_isSome.mpr ⟨(p, a), (hmem p a).mpr ha, htest⟩
    obtain ⟨⟨q, b⟩, hx⟩ := Option.isSome_iff_exists.mp hsome
    obtain ⟨hb, hpass, hbefore⟩ := first hx
    refine ⟨(q, b), hx, ?_⟩
    rcases lt_trichotomy p q with hlt | rfl | hlt
    · rw [hbefore p a hlt ha] at htest
      cases htest
    · exact eq_of_mem hordered ((hmem p b).mpr hb) ((hmem p a).mpr ha)
    · rw [hfirst q b hlt hb] at hpass
      cases hpass

end Lists

/-! ## References -/

/-- A type definition names the type `r` at a place, on behalf of an owner. -/
inductive TypeDef.RefAt (typeName : String) (t : TypeDef) : List Nat → String → TypeRef → Prop
  | property {j name r} (entry : t.properties[j]? = some (name, r)) :
    RefAt typeName t [0, j] ("property `" ++ typeName ++ "." ++ name ++ "`") r
  | static {j name r} (entry : t.statics[j]? = some (name, r)) :
    RefAt typeName t [1, j] ("static `" ++ typeName ++ "." ++ name ++ "`") r
  | returns {r} (entry : t.returns = some r) :
    RefAt typeName t [2] ("return type of `" ++ typeName ++ "`") r
  | element {r} (entry : t.element = some r) :
    RefAt typeName t [3] ("element type of `" ++ typeName ++ "`") r

/-- A declaration names the type `r` at a place, on behalf of an owner. -/
inductive Declared.RefAt (d : Declared) : List Nat → String → TypeRef → Prop
  | binding {i name r} (entry : d.bindings[i]? = some (name, r)) :
    RefAt d [0, i] ("binding `" ++ name ++ "`") r
  | definition {i typeName t p owner r} (type : d.types[i]? = some (typeName, t))
      (inside : t.RefAt typeName p owner r) : RefAt d (1 :: i :: p) owner r

namespace Declared

theorem lists_definitionRefs (typeName : String) (t : TypeDef) :
    Lists (fun p entry => t.RefAt typeName p entry.1 entry.2) (definitionRefs typeName t) := by
  have hproperties := (Lists.map (fun x : String × TypeRef =>
    ("property `" ++ typeName ++ "." ++ x.1 ++ "`", x.2)) t.properties).below 0
  have hstatics := (Lists.map (fun x : String × TypeRef =>
    ("static `" ++ typeName ++ "." ++ x.1 ++ "`", x.2)) t.statics).below 1
  have hreturns := (Lists.toList (fun r : TypeRef =>
    ("return type of `" ++ typeName ++ "`", r)) t.returns).below 2
  have helement := (Lists.toList (fun r : TypeRef =>
    ("element type of `" ++ typeName ++ "`", r)) t.element).below 3
  refine (((hproperties.append hstatics ?_).append hreturns ?_).append helement ?_).congr
    fun p entry => ?_
  · rintro p a q b ⟨p, rfl, -⟩ ⟨q, rfl, -⟩
    exact List.cons_lt_cons_iff.mpr (.inl (by omega))
  · rintro p a q b (⟨p, rfl, -⟩ | ⟨p, rfl, -⟩) ⟨q, rfl, -⟩
    all_goals exact List.cons_lt_cons_iff.mpr (.inl (by omega))
  · rintro p a q b ((⟨p, rfl, -⟩ | ⟨p, rfl, -⟩) | ⟨p, rfl, -⟩) ⟨q, rfl, -⟩
    all_goals exact List.cons_lt_cons_iff.mpr (.inl (by omega))
  · constructor
    · rintro (((⟨_, rfl, j, x, hx, rfl, rfl⟩ | ⟨_, rfl, j, x, hx, rfl, rfl⟩) |
        ⟨_, rfl, r, hr, rfl, rfl⟩) | ⟨_, rfl, r, hr, rfl, rfl⟩)
      · exact .property hx
      · exact .static hx
      · exact .returns hr
      · exact .element hr
    · obtain ⟨owner, r⟩ := entry
      rintro (hx | hx | hr | hr)
      · exact .inl (.inl (.inl ⟨_, rfl, _, _, hx, rfl, rfl⟩))
      · exact .inl (.inl (.inr ⟨_, rfl, _, _, hx, rfl, rfl⟩))
      · exact .inl (.inr ⟨_, rfl, _, hr, rfl, rfl⟩)
      · exact .inr ⟨_, rfl, _, hr, rfl, rfl⟩

theorem lists_refs (d : Declared) : Lists (fun p entry => d.RefAt p entry.1 entry.2) d.refs := by
  have hbindings := (Lists.map (fun x : String × TypeRef =>
    ("binding `" ++ x.1 ++ "`", x.2)) d.bindings).below 0
  have htypes := (Lists.flatMap (fun x : String × TypeDef =>
    lists_definitionRefs x.1 x.2) d.types).below 1
  refine (hbindings.append htypes ?_).congr fun p entry => ?_
  · rintro p a q b ⟨p, rfl, -⟩ ⟨q, rfl, -⟩
    exact List.cons_lt_cons_iff.mpr (.inl (by omega))
  · constructor
    · rintro (⟨_, rfl, i, x, hx, rfl, rfl⟩ | ⟨_, rfl, i, x, q, hx, rfl, hinside⟩)
      · exact .binding hx
      · exact .definition hx hinside
    · obtain ⟨owner, r⟩ := entry
      rintro (hx | ⟨hx, hinside⟩)
      · exact .inl ⟨_, rfl, _, _, hx, rfl, rfl⟩
      · exact .inr ⟨_, rfl, _, _, _, hx, rfl, hinside⟩

/-! ## Validation -/

/-- The types that a declaration may speak of: strings, and what is declared or primitive. -/
def Knows (d : Declared) : Ty → Prop
  | .named name => name ∈ d.types.map Prod.fst ∨ name ∈ primitives
  | .literal _ => True

theorem declares_iff {d : Declared} {name : String} :
    d.declares name = true ↔ name ∈ d.types.map Prod.fst := by
  rw [declares, List.lookup_isSome_iff]
  simp

theorem isDangling_eq_false_iff {d : Declared} {r : TypeRef} :
    d.isDangling r = false ↔ d.Knows r.toTy := by
  cases r with
  | name name =>
    rw [isDangling, TypeRef.toTy, Knows, ← declares_iff]
    simp [Decidable.or_iff_not_imp_left]
  | literal value => simp [isDangling, TypeRef.toTy, Knows]

theorem firstDangling?_eq_some_iff {d : Declared} {e : UnknownType}
    {refs : List (String × TypeRef)} :
    d.firstDangling? refs = some e ↔
      refs.find? (fun entry => d.isDangling entry.2) = some (e.referencedBy, .name e.name) := by
  induction refs with
  | nil => simp [firstDangling?]
  | cons entry refs ih =>
    obtain ⟨owner, r⟩ := entry
    cases r with
    | literal value =>
      rw [firstDangling?, List.find?_cons_of_neg (by simp [isDangling]), ih]
    | name name =>
      rw [firstDangling?]
      split
      · next hdangling =>
        rw [List.find?_cons_of_pos (by exact hdangling)]
        obtain ⟨n, o⟩ := e
        simp [and_comm]
      · next hdangling => rw [List.find?_cons_of_neg (by simpa using hdangling), ih]

theorem validate_eq_ok_iff {d : Declared} :
    d.validate = .ok () ↔ ∀ p owner r, d.RefAt p owner r → d.Knows r.toTy := by
  have hvalid : d.validate = .ok () ↔ d.firstDangling? d.refs = none := by
    unfold validate
    split
    · next e he => simp [he]
    · next hnone => simp [hnone]
  rw [hvalid, firstDangling?_eq_none_iff]
  simp only [isDangling_eq_false_iff, d.lists_refs.mem_iff]
  constructor
  · intro h p owner r hr
    exact h (owner, r) ⟨p, hr⟩
  · rintro h ⟨owner, r⟩ ⟨p, hr⟩
    exact h p owner r hr

theorem validate_eq_error_iff {d : Declared} {e : UnknownType} :
    d.validate = .error e ↔ ∃ p, d.RefAt p e.referencedBy (.name e.name) ∧
      ¬d.Knows (.named e.name) ∧ ∀ q owner r, q < p → d.RefAt q owner r → d.Knows r.toTy := by
  have hinvalid : d.validate = .error e ↔ d.firstDangling? d.refs = some e := by
    unfold validate
    split
    · next f hf => simp [hf]
    · next hnone => simp [hnone]
  have hdangling : d.isDangling (.name e.name) = true ↔ ¬d.Knows (.named e.name) := by
    rw [← Bool.not_eq_false, isDangling_eq_false_iff, TypeRef.toTy]
  rw [hinvalid, firstDangling?_eq_some_iff, d.lists_refs.find?_eq_some_iff]
  simp only [hdangling, isDangling_eq_false_iff, Prod.forall]

/-! ## Answers -/

theorem exists_getElem?_of_lookup {α : Type} {entries : List (String × α)} {name : String} {a : α}
    (h : entries.lookup name = some a) : ∃ i : Nat, entries[i]? = some (name, a) := by
  obtain ⟨before, after, rfl, -⟩ := List.lookup_eq_some_iff.mp h
  exact ⟨before.length, by simp⟩

theorem refAt_of_definition? {d : Declared} {ty : Ty} {t : TypeDef}
    (h : d.definition? ty = some t) : ∃ i typeName, ∀ p owner r,
      t.RefAt typeName p owner r → d.RefAt (1 :: i :: p) owner r := by
  cases ty with
  | literal value => cases h
  | named name =>
    obtain ⟨i, hi⟩ := exists_getElem?_of_lookup h
    exact ⟨i, name, fun p owner r hr => .definition hi hr⟩

/-- What a declaration says about a type. -/
inductive Answers (d : Declared) (ty : Ty) : Ty → Prop
  | property {name answer} (found : d.property ty name = some answer) : Answers d ty answer
  | static {name answer} (found : d.static ty name = some answer) : Answers d ty answer
  | element {answer} (found : d.element ty = some answer) : Answers d ty answer
  | returns {answer} (found : d.returns ty = some answer) : Answers d ty answer

theorem refAt_of_answers {d : Declared} {ty answer : Ty} (h : d.Answers ty answer) :
    ∃ p owner r, d.RefAt p owner r ∧ r.toTy = answer := by
  rcases h with found | found | found | found
  all_goals
    obtain ⟨t, ht, found⟩ := Option.bind_eq_some_iff.mp found
    obtain ⟨r, hr, found⟩ := Option.bind_eq_some_iff.mp found
    obtain ⟨i, typeName, href⟩ := refAt_of_definition? ht
  · obtain ⟨j, hj⟩ := exists_getElem?_of_lookup hr
    exact ⟨_, _, r, href _ _ _ (.property hj), Option.some.inj found⟩
  · obtain ⟨j, hj⟩ := exists_getElem?_of_lookup hr
    exact ⟨_, _, r, href _ _ _ (.static hj), Option.some.inj found⟩
  · exact ⟨_, _, r, href _ _ _ (.element hr), Option.some.inj found⟩
  · exact ⟨_, _, r, href _ _ _ (.returns hr), Option.some.inj found⟩

/-- A name stands for a type that the declaration refers to, or for the type of its name. -/
theorem refAt_of_nameType {d : Declared} {name : String} {ty : Ty} (h : d.nameType name = some ty) :
    (∃ p owner r, d.RefAt p owner r ∧ r.toTy = ty) ∨ d.declares name = true ∧ ty = .named name := by
  unfold nameType at h
  split at h
  · next r hr =>
    obtain ⟨i, hi⟩ := exists_getElem?_of_lookup hr
    exact .inl ⟨_, _, r, .binding hi, Option.some.inj h⟩
  · split at h
    · next hdeclared => exact .inr ⟨hdeclared, (Option.some.inj h).symm⟩
    · cases h

theorem exists_typeOf_of_mem_typesIn {d : Declared} {p : Tree → Bool} {ts : List Tree} {ty : Ty}
    (h : some ty ∈ d.typesIn p ts) : ∃ c ∈ ts, d.typeOf c = some ty := by
  rw [typesIn_eq] at h
  obtain ⟨c, hc, hty⟩ := List.mem_map.mp h
  exact ⟨c, List.mem_of_mem_filter hc, hty⟩

/-- A property of types that every answer about a type has, and that strings and primitive types
have. -/
structure Keeps (d : Declared) (P : Ty → Prop) : Prop where
  answer : ∀ ty answer, P ty → d.Answers ty answer → P answer
  literal : ∀ value, P (.literal value)
  primitive : ∀ name ∈ primitives, P (.named name)

/-- What answers keep, the type of an expression has if the types of its names do. -/
theorem Keeps.typeOf {d : Declared} {P : Ty → Prop} (hP : d.Keeps P) {t : Tree}
    (hnames : t.Everywhere fun n => n.kind.isName = true → ∀ ty, d.nameType n.text = some ty → P ty)
    {ty : Ty} (h : d.typeOf t = some ty) : P ty := by
  induction t using Tree.induct generalizing ty with
  | node info children ih =>
    have hpart {p : Tree → Bool} {object : Ty} (hmem : some object ∈ d.typesIn p children) :
        P object := by
      obtain ⟨c, hc, hobject⟩ := exists_typeOf_of_mem_typesIn hmem
      exact ih c hc (hnames.child hc) hobject
    have hhead {p : Tree → Bool} {object : Ty}
        (hfound : (d.typesIn p children).head?.join = some object) : P object :=
      hpart (List.mem_of_head? (Option.join_eq_some_iff.mp hfound))
    unfold Declared.typeOf at h
    dsimp only at h
    split at h
    case h_1 hk | h_2 hk => exact hnames.here (by rw [Tree.kind, Tree.info, hk]; rfl) ty h
    case h_3 =>
      obtain ⟨object, hobject, h⟩ := Option.bind_eq_some_iff.mp h
      obtain ⟨property, -, h⟩ := Option.bind_eq_some_iff.mp h
      exact hP.answer object ty (hhead hobject) (.property h)
    case h_4 =>
      obtain ⟨object, hobject, h⟩ := Option.bind_eq_some_iff.mp h
      obtain ⟨index, -, h⟩ := Option.bind_eq_some_iff.mp h
      unfold elementAt at h
      split at h
      · split at h
        · next found hfound =>
          obtain rfl := Option.some.inj h
          exact hP.answer object _ (hhead hobject) (.property hfound)
        · exact hP.answer object ty (hhead hobject) (.element h)
      · exact hP.answer object ty (hhead hobject) (.element h)
    case h_5 =>
      obtain ⟨callee, hcallee, h⟩ := Option.bind_eq_some_iff.mp h
      exact hP.answer callee ty (hhead hcallee) (.returns h)
    case h_6 | h_7 | h_8 | h_9 | h_10 => exact hhead h
    case h_11 => exact hpart (List.mem_of_getLast? (Option.join_eq_some_iff.mp h))
    case h_12 =>
      obtain rfl := Option.some.inj h
      exact hP.literal _
    case h_13 | h_14 | h_15 | h_16 =>
      obtain rfl := Option.some.inj h
      exact hP.primitive _ (by decide)
    case h_17 => cases h

theorem keeps_knows {d : Declared} (h : ∀ p owner r, d.RefAt p owner r → d.Knows r.toTy) :
    d.Keeps d.Knows where
  answer ty answer _ hanswer := by
    obtain ⟨p, owner, r, href, rfl⟩ := refAt_of_answers hanswer
    exact h p owner r href
  literal _ := trivial
  primitive _ := .inr

theorem knows_nameType {d : Declared} (h : ∀ p owner r, d.RefAt p owner r → d.Knows r.toTy)
    {name : String} {ty : Ty} (hty : d.nameType name = some ty) : d.Knows ty := by
  rcases refAt_of_nameType hty with ⟨p, owner, r, href, rfl⟩ | ⟨hdeclared, rfl⟩
  · exact h p owner r href
  · exact .inl (declares_iff.mp hdeclared)

end Declared

/-- The types that an oracle can be brought to answer, by asking for the type of an expression
and then, as often as one likes, for properties, statics and brands of what it answered. -/
inductive Oracle.Obtains (o : Oracle) : Ty → Prop
  | typeOf {t ty} (answer : o.typeOf t = some ty) : Obtains o ty
  | property {ty name answer} (object : Obtains o ty)
      (found : o.property ty name = some answer) : Obtains o answer
  | static {ty name answer} (object : Obtains o ty)
      (found : o.static ty name = some answer) : Obtains o answer
  | brand {ty answer} (wrapper : Obtains o ty) (found : o.callableBrand? ty = some answer) :
    Obtains o answer

namespace Declared

/-- What is asked of answers, however often, is a known type again. -/
theorem knows_of_obtains {d : Declared} (h : ∀ p owner r, d.RefAt p owner r → d.Knows r.toTy)
    {ty : Ty} (hty : d.oracle.Obtains ty) : d.Knows ty := by
  have hkeeps := keeps_knows h
  induction hty with
  | typeOf answer => exact hkeeps.typeOf (fun _ _ _ _ _ hname => knows_nameType h hname) answer
  | property _ found ih => exact hkeeps.answer _ _ ih (.property found)
  | static _ found ih => exact hkeeps.answer _ _ ih (.static found)
  | brand _ found ih => exact hkeeps.answer _ _ ih (.property found)

/-- Validation accepts a declaration exactly if all the types it refers to are known, and
otherwise reports the first that is not.  From a declaration that it accepts no chain of questions
obtains a type that is neither declared nor primitive. -/
theorem validate_leaves_none_dangling (d : Declared) :
    (d.validate = .ok () ↔ ∀ p owner r, d.RefAt p owner r → d.Knows r.toTy) ∧
      (∀ e, d.validate = .error e ↔ ∃ p, d.RefAt p e.referencedBy (.name e.name) ∧
        ¬d.Knows (.named e.name) ∧
        ∀ q owner r, q < p → d.RefAt q owner r → d.Knows r.toTy) ∧
      (d.validate = .ok () → ∀ name, d.oracle.Obtains (.named name) →
        name ∈ d.types.map Prod.fst ∨ name ∈ primitives) :=
  ⟨validate_eq_ok_iff, fun _ => validate_eq_error_iff,
    fun h _ hty => knows_of_obtains (validate_eq_ok_iff.mp h) hty⟩

/-- Wrappers of functions in a list. -/
def handlerTypes : Declared where
  bindings := [("handlers", .name "Handlers")]
  types := [("Handlers", { element := some (.name "Handler") }),
    ("Handler", { properties := [("__callableBrand", .name "Names")] }),
    ("Names", { returns := some (.name "string") })]

/-- The tree of `handlers[0]`. -/
def firstHandler : Tree :=
  .node ⟨.subscriptExpression, none, true, ⟨0, 11⟩, "handlers[0]"⟩
    [.node ⟨.identifier, some "object", true, ⟨0, 8⟩, "handlers"⟩ [],
      .node ⟨.unknown "[", none, false, ⟨8, 9⟩, "["⟩ [],
      .node ⟨.numberLiteral, some "index", true, ⟨9, 10⟩, "0"⟩ [],
      .node ⟨.unknown "]", none, false, ⟨10, 11⟩, "]"⟩ []]

theorem handlerTypes_leaves_none_dangling :
    handlerTypes.validate = .ok () ∧ handlerTypes.oracle.Obtains (.named "Names") ∧
      ("Names" ∈ handlerTypes.types.map Prod.fst ∨ "Names" ∈ primitives) := by
  have hvalid : handlerTypes.validate = .ok () := by rfl
  have hwrapper : handlerTypes.oracle.Obtains (.named "Handler") := .typeOf (t := firstHandler) rfl
  have hbrand : handlerTypes.oracle.Obtains (.named "Names") := .brand hwrapper rfl
  exact ⟨hvalid, hbrand,
    (validate_leaves_none_dangling handlerTypes).2.2 hvalid "Names" hbrand⟩

/-- Two references are bad, and the one of the earlier type is reported though it stands in the
last place of that type. -/
example : validate
    { types := [("List", { element := some (.name "Item") }),
      ("Map", { properties := [("key", .name "Key")] })] } =
    .error ⟨"Item", "element type of `List`"⟩ := by rfl

end Declared
end Reify
