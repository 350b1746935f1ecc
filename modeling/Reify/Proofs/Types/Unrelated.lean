/-
Unrelated declarations do not matter.

Questions chain: the type of an expression comes from the types of its parts, and what is asked
of it from the definition of that type.  All types that a chain can reach are shared by two
declarations if what one adds to the other stands under names that nothing leads to: they are
not primitive, the first declaration neither defines nor mentions them, and the source unit does
not contain them as identifiers.
-/
import Reify.Proofs.Rewrite.Agreement
import Reify.Proofs.Tree.Redraw
import Reify.Proofs.Types.Closed

namespace Reify
namespace Declared

variable {d d' : Declared} {t : Tree}

/-- The two declarations differ in what they bind or define under a name. -/
def DifferAt (d d' : Declared) (name : String) : Prop :=
  d'.bindings.lookup name ≠ d.bindings.lookup name ∨ d'.types.lookup name ≠ d.types.lookup name

/-- A name that has nothing to do with a declaration and a source unit. -/
structure Unrelated (d : Declared) (t : Tree) (name : String) : Prop where
  primitive : name ∉ primitives
  unbound : d.bindings.lookup name = none
  undefined : d.types.lookup name = none
  unmentioned : ∀ p owner, ¬d.RefAt p owner (.name name)
  unused : t.Everywhere fun n => n.kind.isName = true → n.text ≠ name

def plus (d e : Declared) : Declared := ⟨d.bindings ++ e.bindings, d.types ++ e.types⟩

theorem lookup_append_of_notMem {α : Type} (as : List (String × α)) {bs : List (String × α)}
    {name : String} (h : name ∉ bs.map Prod.fst) : (as ++ bs).lookup name = as.lookup name := by
  have hnone : bs.lookup name = none := by
    rw [List.lookup_eq_none_iff]
    rintro ⟨key, a⟩ ha
    have hkey : name ≠ key := fun heq => h (List.mem_map.mpr ⟨_, ha, heq.symm⟩)
    simpa using hkey
  rw [List.lookup_append, hnone, Option.or_none]

theorem mem_of_differAt_plus {e : Declared} {name : String} (h : DifferAt d (d.plus e) name) :
    name ∈ e.bindings.map Prod.fst ∨ name ∈ e.types.map Prod.fst := by
  rcases h with h | h
  · exact .inl (by_contra fun hname => h (lookup_append_of_notMem _ hname))
  · exact .inr (by_contra fun hname => h (lookup_append_of_notMem _ hname))

/-! ## Shared types -/

/-- A type that has the same definition in both. -/
def Shared (d d' : Declared) : Ty → Prop
  | .named name => ¬DifferAt d d' name
  | .literal _ => True

theorem Shared.definition?_eq {ty : Ty} (h : Shared d d' ty) : d'.definition? ty = d.definition? ty := by
  cases ty with
  | literal value => rfl
  | named name => exact not_not.mp (not_or.mp h).2

theorem Shared.answers {ty : Ty} (h : Shared d d' ty) :
    (∀ name, d'.property ty name = d.property ty name) ∧
      (∀ name, d'.static ty name = d.static ty name) ∧ d'.element ty = d.element ty ∧
      d'.returns ty = d.returns ty ∧ d'.signaturesOf ty = d.signaturesOf ty := by
  simp only [property, static, element, returns, signaturesOf, h.definition?_eq, implies_true,
    and_self]

/-- A name that both declare alike, if the node is a name. -/
def NameShared (d d' : Declared) (n : Tree) : Prop :=
  n.kind.isName = true → ¬DifferAt d d' n.text

/-- From what both declare alike, `d` leads to nothing else. -/
structure Apart (d d' : Declared) : Prop where
  keeps : d.Keeps (Shared d d')
  name : ∀ name ty, ¬DifferAt d d' name → d.nameType name = some ty → Shared d d' ty

theorem apart_of_unrelated (h : ∀ name, DifferAt d d' name → Unrelated d t name) : Apart d d' := by
  have hshared {p : List Nat} {owner : String} {r : TypeRef} (hr : d.RefAt p owner r) :
      Shared d d' r.toTy := by
    cases r with
    | literal value => trivial
    | name name => exact fun hdiffer => (h name hdiffer).unmentioned p owner hr
  refine ⟨⟨fun ty answer _ hanswer => ?_, fun _ => trivial, fun name hname hdiffer => ?_⟩,
    fun name ty hname hty => ?_⟩
  · obtain ⟨p, owner, r, href, rfl⟩ := refAt_of_answers hanswer
    exact hshared href
  · exact (h name hdiffer).primitive hname
  · rcases refAt_of_nameType hty with ⟨p, owner, r, href, rfl⟩ | ⟨-, rfl⟩
    · exact hshared href
    · exact hname

theorem nameType_eq {name : String} (h : ¬DifferAt d d' name) :
    d'.nameType name = d.nameType name := by
  obtain ⟨hbinding, htype⟩ := not_or.mp h
  rw [nameType, nameType, declares, declares, not_not.mp hbinding, not_not.mp htype]

/-! ## Types of expressions -/

variable (h : Apart d d')

include h

theorem Apart.shared_typeOf (ht : t.Everywhere (NameShared d d')) {ty : Ty}
    (hty : d.typeOf t = some ty) : Shared d d' ty :=
  h.keeps.typeOf (fun p n hn hname ty => h.name n.text ty (ht p n hn hname)) hty

theorem Apart.typeOf_eq (ht : t.Everywhere (NameShared d d')) : d'.typeOf t = d.typeOf t := by
  induction t using Tree.induct with
  | node info children ih =>
    have htypes (p : Tree → Bool) : d'.typesIn p children = d.typesIn p children := by
      rw [typesIn_eq, typesIn_eq]
      exact List.map_congr_left fun c hc =>
        ih c (List.mem_of_mem_filter hc) (ht.child (List.mem_of_mem_filter hc))
    have hshared {p : Tree → Bool} {object : Ty}
        (hobject : (d.typesIn p children).head?.join = some object) : Shared d d' object := by
      have hmem := List.mem_of_head? (Option.join_eq_some_iff.mp hobject)
      obtain ⟨c, hc, hty⟩ := exists_typeOf_of_mem_typesIn hmem
      exact h.shared_typeOf (ht.child hc) hty
    unfold Declared.typeOf
    simp only [htypes]
    split
    case h_1 hk | h_2 hk =>
      exact nameType_eq (ht.here (by rw [Tree.kind, Tree.info, hk]; rfl))
    case h_3 =>
      refine Option.bind_congr fun object hobject => Option.bind_congr fun name _ => ?_
      exact (hshared hobject).answers.1 name.text
    case h_4 =>
      refine Option.bind_congr fun object hobject => Option.bind_congr fun index _ => ?_
      obtain ⟨hproperty, -, helement, -⟩ := (hshared hobject).answers
      rw [elementAt, elementAt, hproperty, helement]
    case h_5 => exact Option.bind_congr fun callee hcallee => (hshared hcallee).answers.2.2.2.1
    all_goals rfl

theorem Apart.bind_typeOf_congr {α : Type} {f g : Ty → Option α}
    (ht : t.Everywhere (NameShared d d')) (hfg : ∀ ty, Shared d d' ty → f ty = g ty) :
    (d'.typeOf t).bind f = (d.typeOf t).bind g := by
  rw [h.typeOf_eq ht]
  exact Option.bind_congr fun ty hty => hfg ty (h.shared_typeOf ht hty)

/-! ## Lowering -/

omit h in
theorem Shared.marks {ty : Ty} (hty : Shared d d' ty) :
    d'.oracle.referenceKind? ty = d.oracle.referenceKind? ty ∧
      d'.oracle.componentKind? ty = d.oracle.componentKind? ty ∧
      d'.oracle.callableBrand? ty = d.oracle.callableBrand? ty := by
  have hproperty : d'.oracle.property ty = d.oracle.property ty := funext hty.answers.1
  have hstatic : d'.oracle.static ty = d.oracle.static ty := funext hty.answers.2.1
  refine ⟨?_, ?_, ?_⟩
  · rw [Oracle.referenceKind?, Oracle.referenceKind?, hproperty]
  · rw [Oracle.componentKind?, Oracle.componentKind?, Oracle.componentType?,
      Oracle.componentType?, hstatic, hproperty]
  · rw [Oracle.callableBrand?, Oracle.callableBrand?, hproperty]

theorem Apart.usableSignature_eq (ht : t.Everywhere (NameShared d d')) :
    Arguments.usableSignature d'.oracle t = Arguments.usableSignature d.oracle t := by
  cases hcallee : t.callee? with
  | none =>
    have hunsigned (e : Declared) : e.oracle.resolvedSignature t = none := by
      show e.resolvedSignature t = none
      rw [resolvedSignature, hcallee]
      rfl
    rw [Arguments.usableSignature, Arguments.usableSignature, hcallee, hunsigned, hunsigned]
    rfl
  | some callee =>
    have hbelow : callee.Everywhere (NameShared d d') := ht.child (Tree.mem_of_callee? hcallee)
    have hbrand : (d'.oracle.typeOf callee).bind d'.oracle.callableBrand? =
        (d.oracle.typeOf callee).bind d.oracle.callableBrand? :=
      h.bind_typeOf_congr hbelow fun ty hty => hty.marks.2.2
    have hsignature : d'.oracle.resolvedSignature t = d.oracle.resolvedSignature t := by
      show d'.resolvedSignature t = d.resolvedSignature t
      rw [resolvedSignature, resolvedSignature, hcallee]
      exact h.bind_typeOf_congr hbelow fun ty hty => by rw [hty.answers.2.2.2.2]
    rw [Arguments.usableSignature, Arguments.usableSignature, hcallee, Option.bind_some,
      Option.bind_some, hbrand, hsignature]
    cases hbranded : (d.oracle.typeOf callee).bind d.oracle.callableBrand? with
    | none => rfl
    | some branded =>
      obtain ⟨ty, hty, hanswer⟩ := Option.bind_eq_some_iff.mp hbranded
      have hshared : Shared d d' branded :=
        h.keeps.answer ty branded (h.shared_typeOf hbelow hty) (.property hanswer)
      have hsignatures : d'.oracle.signaturesOf branded = d.oracle.signaturesOf branded :=
        hshared.answers.2.2.2.2
      simp only [hsignatures]

theorem Apart.agreeAt (ht : t.Everywhere (NameShared d d')) : d.oracle.AgreeAt d'.oracle t where
  reference := by
    have hkind : (d'.oracle.typeOf t).bind d'.oracle.referenceKind? =
        (d.oracle.typeOf t).bind d.oracle.referenceKind? :=
      h.bind_typeOf_congr ht fun ty hty => hty.marks.1
    rw [Oracle.resolveReference?, Oracle.resolveReference?, hkind]
  snapshot _ := by
    show (d.typeOf t).map Ty.display = (d'.typeOf t).map Ty.display
    rw [h.typeOf_eq ht]
  signature := (h.usableSignature_eq ht).symm

/-! ## Selection -/

theorem Apart.isFunctionTyped_eq (ht : t.Everywhere (NameShared d d')) :
    Selector.isFunctionTyped d'.oracle t = Selector.isFunctionTyped d.oracle t := by
  have htype : d'.oracle.typeOf t = d.oracle.typeOf t := h.typeOf_eq ht
  rw [Selector.isFunctionTyped, Selector.isFunctionTyped, htype]
  cases hty : d.oracle.typeOf t with
  | none => rfl
  | some ty =>
    have hsignatures : d'.oracle.signaturesOf ty = d.oracle.signaturesOf ty :=
      (h.shared_typeOf ht hty).answers.2.2.2.2
    simp only [hsignatures]

theorem Apart.component?_eq (ht : t.Everywhere (NameShared d d')) :
    Selector.component? d'.oracle t = Selector.component? d.oracle t := by
  have hkind {c : Tree} (hc : c.Everywhere (NameShared d d')) :
      (d'.oracle.typeOf c).bind d'.oracle.componentKind? =
        (d.oracle.typeOf c).bind d.oracle.componentKind? :=
    h.bind_typeOf_congr hc fun ty hty => hty.marks.2.1
  refine Option.bind_congr fun callee hcallee => ?_
  rw [hkind (ht.child (Tree.mem_of_callee? hcallee)), hkind ht]

theorem Apart.selectEventMethod?_eq (ht : t.Everywhere (NameShared d d')) :
    Selector.selectEventMethod? d'.oracle t = Selector.selectEventMethod? d.oracle t := by
  refine Option.bind_congr fun callee hcallee => ?_
  have hbelow := ht.child (Tree.mem_of_callee? hcallee)
  split
  · refine Option.bind_congr fun property _ => Option.bind_congr fun kind _ =>
      Option.bind_congr fun object hobject => ?_
    refine h.bind_typeOf_congr (hbelow.child (Tree.mem_of_childByField? hobject)) fun ty hty => ?_
    rw [Selector.isEventSource, Selector.isEventSource, hty.marks.2.1]
    split
    · refine Option.bind_congr fun trailing hlast => ?_
      rw [h.isFunctionTyped_eq (ht.argument (List.mem_of_getLast? hlast))]
    · rfl
  · rfl

theorem Apart.select?_eq (ht : t.Everywhere (NameShared d d')) :
    select? d'.oracle t = select? d.oracle t := by
  rw [select?, select?, h.selectEventMethod?_eq ht, Selector.selectComponent?,
    Selector.selectComponent?, h.component?_eq ht]

end Declared

/-! ## The empty declaration -/

section

variable {t : Tree}

theorem Declared.empty_marks (ty : Ty) :
    ({} : Declared).oracle.referenceKind? ty = none ∧
      ({} : Declared).oracle.componentKind? ty = none ∧
      ({} : Declared).oracle.callableBrand? ty = none := by
  cases ty <;> exact ⟨rfl, rfl, rfl⟩

/-- Literals have a type even where nothing is declared, but accesses have none. -/
theorem Declared.empty_typeOf (h : t.kind = .memberExpression ∨ t.kind = .subscriptExpression) :
    ({} : Declared).typeOf t = none := by
  have hproperty (ty : Ty) (name : String) : ({} : Declared).property ty name = none := by
    cases ty <;> rfl
  have helement (ty : Ty) (index : Tree) : ({} : Declared).elementAt ty index = none := by
    cases ty <;> rw [elementAt, hproperty] <;> split <;> rfl
  obtain ⟨info, children⟩ := t
  change info.kind = .memberExpression ∨ info.kind = .subscriptExpression at h
  unfold Declared.typeOf
  rcases h with h | h <;> simp [h, hproperty, helement]

theorem Oracle.noTypes_agreeAt (t : Tree) : ({} : Declared).oracle.AgreeAt .noTypes t where
  reference := by
    have hnone : ((({} : Declared).oracle.typeOf t).bind
        ({} : Declared).oracle.referenceKind?) = none :=
      Option.bind_eq_none_iff.mpr fun ty _ => (Declared.empty_marks ty).1
    rw [resolveReference?, hnone]
    rfl
  snapshot h := congrArg (Option.map Ty.display) (Declared.empty_typeOf h)
  signature := by
    have hnone : (t.callee?.bind ({} : Declared).oracle.typeOf).bind
        ({} : Declared).oracle.callableBrand? = none :=
      Option.bind_eq_none_iff.mpr fun ty _ => (Declared.empty_marks ty).2.2
    have hunsigned : ({} : Declared).oracle.resolvedSignature t = none := by
      refine Option.bind_eq_none_iff.mpr fun callee _ => Option.bind_eq_none_iff.mpr fun ty _ => ?_
      cases ty <;> rfl
    rw [Arguments.usableSignature, hnone, hunsigned]
    cases h : t.callee? with
    | none => rw [Arguments.usableSignature, h]; rfl
    | some callee => rw [Arguments.usableSignature, h]; rfl

theorem noTypes_select?_eq (t : Tree) : select? ({} : Declared).oracle t = select? .noTypes t := by
  have hevent (o : Oracle) (h : ∀ ty, Selector.isEventSource o ty = false) :
      Selector.selectEventMethod? o t = none := by
    refine Option.bind_eq_none_iff.mpr fun callee _ => ?_
    split
    · refine Option.bind_eq_none_iff.mpr fun property _ => Option.bind_eq_none_iff.mpr fun kind _ =>
        Option.bind_eq_none_iff.mpr fun object _ => Option.bind_eq_none_iff.mpr fun ty _ => ?_
      rw [h ty]
      rfl
    · rfl
  have hcomponent (o : Oracle) (h : ∀ ty, o.componentKind? ty = none) :
      Selector.component? o t = none := by
    have hkind (c : Tree) : (o.typeOf c).bind o.componentKind? = none :=
      Option.bind_eq_none_iff.mpr fun ty _ => h ty
    refine Option.bind_eq_none_iff.mpr fun callee _ => ?_
    rw [hkind, hkind]
  have hempty (ty : Ty) : ({} : Declared).oracle.componentKind? ty = none :=
    (Declared.empty_marks ty).2.1
  have hnothing (ty : Ty) : Oracle.noTypes.componentKind? ty = none := rfl
  rw [select?, select?, hevent _ fun ty => by rw [Selector.isEventSource, hempty]; rfl,
    hevent _ fun ty => by rw [Selector.isEventSource, hnothing]; rfl, Selector.selectComponent?,
    Selector.selectComponent?, hcomponent _ hempty, hcomponent _ hnothing]

end

/-! ## Nothing changes -/

/-- All that is made of a tree is the same under two oracles. -/
structure SameAt (o o' : Oracle) (t : Tree) : Prop extends LowersAlike o o' t where
  function : ∀ flavor drop, lowerFunction o flavor drop t = lowerFunction o' flavor drop t
  reflected : ∀ drop, lowerReflected o drop t = lowerReflected o' drop t
  arguments : bindArguments o t = bindArguments o' t
  selection : select? o t = select? o' t

theorem sameAt_of_agree {o o' : Oracle} {t : Tree} (h : t.Everywhere (Oracle.AgreeAt o o'))
    (hselect : select? o t = select? o' t) : SameAt o o' t where
  toLowersAlike := lowersAlike h
  function := lowerFunction_congr h
  reflected := lowerReflected_congr h
  arguments := bindArguments_congr h
  selection := hselect

namespace Declared

theorem Apart.sameAt {d d' : Declared} {t : Tree} (h : Apart d d')
    (ht : t.Everywhere (NameShared d d')) : SameAt d.oracle d'.oracle t :=
  sameAt_of_agree (fun _ _ hn => h.agreeAt (ht.at? hn)) (h.select?_eq ht).symm

/-- What a declaration adds under names that have nothing to do with another declaration and a
source unit changes nothing that is made of the unit: no node is lowered, bound or selected in
another way, and the walk finds the same rewrites.  Declaring nothing is the same as having no
types. -/
theorem unrelated_declarations_never_matter :
    (∀ (d d' : Declared) (t : Tree), (∀ name, DifferAt d d' name → Unrelated d t name) →
      t.Everywhere (SameAt d.oracle d'.oracle) ∧
        Rewrite.collect d.oracle t = Rewrite.collect d'.oracle t) ∧
      ∀ t : Tree, t.Everywhere (SameAt ({} : Declared).oracle .noTypes) ∧
        Rewrite.collect ({} : Declared).oracle t = Rewrite.collect .noTypes t := by
  constructor
  · intro d d' t h
    have happart : Apart d d' := apart_of_unrelated h
    have hnames : t.Everywhere (NameShared d d') := fun p n hn hname hdiffer =>
      (h n.text hdiffer).unused p n hn hname rfl
    refine ⟨fun p n hn => happart.sameAt (hnames.at? hn), Rewrite.collect_congr ?_ ?_⟩
    · exact fun p n hn => happart.agreeAt (hnames.at? hn)
    · exact fun p n hn => (happart.select?_eq (hnames.at? hn)).symm
  · intro t
    refine ⟨fun p n _ => ?_, Rewrite.collect_congr ?_ ?_⟩
    · exact sameAt_of_agree (fun _ m _ => Oracle.noTypes_agreeAt m) (noTypes_select?_eq n)
    · exact fun _ n _ => Oracle.noTypes_agreeAt n
    · exact fun _ n _ => noTypes_select?_eq n

/-- An event bus, and a method that the bus is asked to transform events with. -/
def busTypes : Declared where
  bindings := [("bus", .name "Bus")]
  types := [("Bus", { properties := [("componentKind", .literal "EventBus")] })]

/-- A resource that has nothing to do with the bus. -/
def queueTypes : Declared where
  bindings := [("queue", .name "Queue")]
  types := [("Queue", { properties := [("kind", .literal "Function")] })]

/-- The tree of `bus.map(() => 1)`. -/
def busMap : Tree :=
  .node ⟨.callExpression, none, true, ⟨0, 16⟩, "bus.map(() => 1)"⟩
    [.node ⟨.memberExpression, some "function", true, ⟨0, 7⟩, "bus.map"⟩
        [.node ⟨.identifier, some "object", true, ⟨0, 3⟩, "bus"⟩ [],
          .node ⟨.unknown ".", none, false, ⟨3, 4⟩, "."⟩ [],
          .node ⟨.propertyIdentifier, some "property", true, ⟨4, 7⟩, "map"⟩ []],
      .node ⟨.arguments, some "arguments", true, ⟨7, 16⟩, "(() => 1)"⟩
        [.node ⟨.unknown "(", none, false, ⟨7, 8⟩, "("⟩ [],
          .node ⟨.arrowFunction, none, true, ⟨8, 15⟩, "() => 1"⟩
            [.node ⟨.formalParameters, some "parameters", true, ⟨8, 10⟩, "()"⟩ [],
              .node ⟨.numberLiteral, some "body", true, ⟨14, 15⟩, "1"⟩ []],
          .node ⟨.unknown ")", none, false, ⟨15, 16⟩, ")"⟩ []]]

theorem queueTypes_never_matter :
    (∀ name, DifferAt busTypes (busTypes.plus queueTypes) name → Unrelated busTypes busMap name) ∧
      DifferAt busTypes (busTypes.plus queueTypes) "queue" ∧
      select? (busTypes.plus queueTypes).oracle busMap = some ⟨.map, [0], 0⟩ ∧
      Rewrite.collect busTypes.oracle busMap =
        Rewrite.collect (busTypes.plus queueTypes).oracle busMap := by
  have hunrelated (name : String) (h : DifferAt busTypes (busTypes.plus queueTypes) name) :
      Unrelated busTypes busMap name := by
    obtain rfl | rfl : name = "queue" ∨ name = "Queue" := by
      rcases mem_of_differAt_plus h with h | h
      · exact .inl (List.mem_singleton.mp h)
      · exact .inr (List.mem_singleton.mp h)
    all_goals
      refine ⟨by decide, by rfl, by rfl, fun p owner hr => ?_, by decide⟩
      have hmem : (owner, _) ∈ busTypes.refs := busTypes.lists_refs.mem_iff.mpr ⟨p, hr⟩
      simp [refs, busTypes, definitionRefs] at hmem
  refine ⟨hunrelated, .inl (by decide), by rfl, ?_⟩
  exact (unrelated_declarations_never_matter.1 _ _ busMap hunrelated).2

end Declared
end Reify
