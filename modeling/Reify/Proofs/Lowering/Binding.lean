/-
Binding keeps the arguments in order.

With a rest parameter in last place only, parameter number `i` is bound to argument number `i`,
and the rest parameter to all arguments that are left (`bindFrom_eq_ok`).  So no argument is
bound twice or out of order, and one is dropped only where there are fewer parameters.  An
overload that accepts the number of arguments drops none.
-/
import Reify.Proofs.Lowering.Parts
import Reify.Proofs.Tree.Grammar
import Reify.Types.Declared

namespace Reify

open Lowering

/-! ## Parameters and what they are bound to -/

namespace Arguments

def RestLast (ps : List Parameter) : Prop := ∀ p ∈ ps.dropLast, p.rest = false

instance (ps : List Parameter) : Decidable (RestLast ps) :=
  inferInstanceAs (Decidable (∀ p ∈ ps.dropLast, p.rest = false))

/-- The arguments that parameters have room for. -/
def kept (ps : List Parameter) (supplied : List Tree) : List Tree :=
  if ps.any (·.rest) then supplied else supplied.take ps.length

def argumentAt (values : List Node) (index : Nat) (p : Parameter) : Node :=
  .argument (if p.rest then some (.arrayLiteralExpr (values.drop index)) else values[index]?)
    (if p.name = "" then none else some p.name)

/-- The values in the argument node of a parameter: those in the array of a rest parameter, and
otherwise one at most. -/
def valuesIn (p : Parameter) : Node → List Node
  | .argument (some (.arrayLiteralExpr values)) _ =>
    if p.rest then values else [.arrayLiteralExpr values]
  | .argument value _ => value.toList
  | _ => []

variable {p : Parameter} {ps : List Parameter}

theorem RestLast.tail (h : RestLast (p :: ps)) : RestLast ps := by
  intro q hq
  cases ps with
  | nil => cases hq
  | cons r rs => exact h q (List.mem_cons_of_mem p hq)

theorem RestLast.eq_nil (h : RestLast (p :: ps)) (hp : p.rest = true) : ps = [] := by
  cases ps with
  | nil => rfl
  | cons q qs =>
    rw [h p List.mem_cons_self] at hp
    cases hp

theorem kept_nil (ps : List Parameter) : kept ps [] = [] := by
  unfold kept
  split
  · rfl
  · exact List.take_nil

theorem kept_rest (hp : p.rest = true) (supplied : List Tree) :
    kept (p :: ps) supplied = supplied := by
  rw [kept, List.any_cons, hp, Bool.true_or, if_pos rfl]

theorem kept_cons (hp : p.rest = false) (c : Tree) (supplied : List Tree) :
    kept (p :: ps) (c :: supplied) = c :: kept ps supplied := by
  unfold kept
  rw [List.any_cons, hp, Bool.false_or, List.length_cons, List.take_succ_cons]
  split <;> rfl

/-- Parameters that accept the number of arguments have room for all of them. -/
theorem kept_of_accepts {s : Signature} {supplied : List Tree}
    (h : s.accepts supplied.length = true) : kept s.parameters supplied = supplied := by
  unfold kept
  split
  · rfl
  · next hrest =>
    rw [Signature.accepts, Bool.or_eq_true, decide_eq_true_iff] at h
    exact List.take_of_length_le (h.resolve_right hrest)

theorem length_kept_le (hrest : ps.any (·.rest) = false) (supplied : List Tree) :
    (kept ps supplied).length ≤ ps.length := by
  rw [kept, hrest, if_neg Bool.false_ne_true]
  exact List.length_take_le ps.length supplied

theorem argumentAt_succ (values : List Node) :
    (fun index => argumentAt values (index + 1)) = argumentAt values.tail := by
  funext index p
  rw [argumentAt, argumentAt, List.drop_tail, List.getElem?_tail]

theorem bindFrom_succ (supplied : List (Lowering Node)) (index : Nat) (ps : List Parameter) :
    bindFrom supplied (index + 1) ps = bindFrom supplied.tail index ps := by
  induction ps generalizing index with
  | nil => rfl
  | cons p ps ih =>
    have hvalue : valueFor supplied (index + 1) p = valueFor supplied.tail index p := by
      rw [valueFor, valueFor, List.drop_tail, List.getElem?_tail]
    rw [bindFrom, bindFrom, hvalue, ih]

/-! ## One argument for each parameter -/

variable {o : Oracle} {supplied : List Tree}

def Values (o : Oracle) (supplied : List Tree) (values : List Node) : Prop :=
  List.Forall₂ (fun c n => lowerElement o c = .ok n) supplied values

theorem exists_values_iff :
    (∃ values, Values o supplied values) ↔ ∀ c ∈ supplied, ∃ n, lowerElement o c = .ok n := by
  induction supplied with
  | nil => exact ⟨fun _ => List.forall_mem_nil _, fun _ => ⟨[], .nil⟩⟩
  | cons c supplied ih =>
    rw [List.forall_mem_cons, ← ih]
    constructor
    · rintro ⟨_, _ | ⟨hvalue, hvalues⟩⟩
      exact ⟨⟨_, hvalue⟩, ⟨_, hvalues⟩⟩
    · rintro ⟨⟨n, hvalue⟩, ⟨values, hvalues⟩⟩
      exact ⟨n :: values, .cons hvalue hvalues⟩

theorem valueFor_rest (hp : p.rest = true) {value : Option Node} :
    valueFor (supplied.map (lowerElement o)) 0 p = .ok value ↔
      ∃ values, Values o supplied values ∧ some (.arrayLiteralExpr values) = value := by
  rw [valueFor, if_pos hp, List.drop_zero]
  simp only [bind_eq_ok, pure_eq_ok, gather_map_eq_ok, Values]

theorem valueFor_plain (hp : p.rest = false) {value : Option Node} :
    valueFor (supplied.map (lowerElement o)) 0 p = .ok value ↔
      Option.Rel (fun c n => lowerElement o c = .ok n) supplied.head? value := by
  rw [valueFor, if_neg (Bool.eq_false_iff.mp hp), ← List.head?_eq_getElem?, List.head?_map,
    optional_map_eq_ok]

theorem argumentAt_rest (hp : p.rest = true) (values : List Node) :
    argumentAt values 0 p = .argument (some (.arrayLiteralExpr values)) (nameOf p) := by
  rw [argumentAt, if_pos hp, List.drop_zero, nameOf]

theorem argumentAt_plain (hp : p.rest = false) (values : List Node) :
    argumentAt values 0 p = .argument values.head? (nameOf p) := by
  rw [argumentAt, if_neg (Bool.eq_false_iff.mp hp), List.head?_eq_getElem?, nameOf]

/-- The parameters are bound as soon as the arguments that they have room for lower, one
parameter to one argument. -/
theorem bindFrom_eq_ok (hrest : RestLast ps) {bound : List Node} :
    bindFrom (supplied.map (lowerElement o)) 0 ps = .ok bound ↔
      ∃ values, Values o (kept ps supplied) values ∧ ps.mapIdx (argumentAt values) = bound := by
  induction ps generalizing supplied bound with
  | nil =>
    simp only [bindFrom, List.mapIdx_nil, kept, List.any_nil, List.length_nil, List.take_zero]
    constructor
    · intro h
      exact ⟨[], .nil, Except.ok.inj h⟩
    · rintro ⟨_, -, rfl⟩
      rfl
  | cons p ps ih =>
    rw [bindFrom, bindFrom_succ, ← List.map_tail]
    simp only [bind_eq_ok, pure_eq_ok, List.mapIdx_cons, argumentAt_succ]
    cases hp : p.rest with
    | true =>
      -- the array takes all that is left, so nothing comes after it
      obtain rfl := hrest.eq_nil hp
      simp only [valueFor_rest hp, kept_rest hp, argumentAt_rest hp, bindFrom, List.mapIdx_nil]
      constructor
      · rintro ⟨_, ⟨values, hvalues, rfl⟩, _, hnil, rfl⟩
        obtain rfl := Except.ok.inj hnil
        exact ⟨values, hvalues, rfl⟩
      · rintro ⟨values, hvalues, rfl⟩
        exact ⟨_, ⟨values, hvalues, rfl⟩, _, rfl, rfl⟩
    | false =>
      simp only [valueFor_plain hp, ih hrest.tail, argumentAt_plain hp]
      cases supplied with
      | nil =>
        simp only [List.tail_nil, kept_nil]
        constructor
        · rintro ⟨_, ⟨⟩, _, ⟨_, ⟨⟩, rfl⟩, rfl⟩
          exact ⟨[], .nil, rfl⟩
        · rintro ⟨_, ⟨⟩, rfl⟩
          exact ⟨none, .none, _, ⟨[], .nil, rfl⟩, rfl⟩
      | cons c supplied =>
        simp only [List.tail_cons, kept_cons hp]
        constructor
        · rintro ⟨_, ⟨hvalue⟩, _, ⟨values, hvalues, rfl⟩, rfl⟩
          exact ⟨_, .cons hvalue hvalues, rfl⟩
        · rintro ⟨_, _ | ⟨hvalue, hvalues⟩, rfl⟩
          exact ⟨_, .some hvalue, _, ⟨_, hvalues, rfl⟩, rfl⟩

theorem valuesIn_rest (hp : p.rest = true) (values : List Node) :
    valuesIn p (argumentAt values 0 p) = values := by
  rw [argumentAt_rest hp, valuesIn, if_pos hp]

theorem valuesIn_plain (hp : p.rest = false) (values : List Node) :
    valuesIn p (argumentAt values 0 p) = values.head?.toList := by
  rw [argumentAt_plain hp]
  unfold valuesIn
  split
  · next heq =>
    obtain ⟨h, -⟩ := Node.argument.inj heq
    rw [hp, if_neg Bool.false_ne_true, h, Option.toList_some]
  · next heq =>
    obtain ⟨h, -⟩ := Node.argument.inj heq
    rw [h]
  · next hne => exact absurd rfl (hne _ _)

/-- With the array of the rest parameter expanded, the bound values are all values, if there is
room for them. -/
theorem flatten_valuesIn (hrest : RestLast ps) {values : List Node}
    (hroom : ps.any (·.rest) = true ∨ values.length ≤ ps.length) :
    (List.zipWith valuesIn ps (ps.mapIdx (argumentAt values))).flatten = values := by
  induction ps generalizing values with
  | nil =>
    have hnil : values = [] := List.eq_nil_of_length_eq_zero (Nat.le_zero.mp (by simpa using hroom))
    rw [hnil]
    rfl
  | cons p ps ih =>
    rw [List.mapIdx_cons, argumentAt_succ, List.zipWith_cons_cons, List.flatten_cons]
    cases hp : p.rest with
    | true =>
      obtain rfl := hrest.eq_nil hp
      rw [valuesIn_rest hp, List.mapIdx_nil, List.zipWith_nil_left, List.flatten_nil,
        List.append_nil]
    | false =>
      have hroom : ps.any (·.rest) = true ∨ values.tail.length ≤ ps.length := by
        rw [List.any_cons, hp, Bool.false_or, List.length_cons] at hroom
        rw [List.length_tail]
        exact hroom.imp_right Nat.sub_le_of_le_add
      rw [valuesIn_plain hp, ih hrest.tail hroom]
      cases values <;> rfl

theorem Values.flatten_valuesIn {values : List Node} (h : Values o (kept ps supplied) values)
    (hrest : RestLast ps) :
    (List.zipWith valuesIn ps (ps.mapIdx (argumentAt values))).flatten = values := by
  refine Arguments.flatten_valuesIn hrest ?_
  cases hany : ps.any (·.rest) with
  | true => exact .inl rfl
  | false =>
    rw [← List.Forall₂.length_eq h]
    exact .inr (length_kept_le hany supplied)

end Arguments

/-! ## The arguments of an invocation -/

open Arguments

variable {o : Oracle} {t : Tree}

theorem bindArguments_of_signature {s : Signature} (hsignature : usableSignature o t = .ok (some s))
    (hnone : s.parameters = [] → t.callArguments = []) (hrest : RestLast s.parameters)
    {bound : List Node} :
    bindArguments o t = .ok bound ↔ ∃ values, Values o (kept s.parameters t.callArguments) values ∧
      s.parameters.mapIdx (argumentAt values) = bound := by
  rw [bindArguments, assemble, hsignature, ← bindFrom_eq_ok hrest]
  obtain ⟨_ | ⟨p, ps⟩⟩ := s
  · rw [hnone rfl]
    rfl
  · rfl

/-- Binding under a signature succeeds as soon as the arguments that are kept lower, and their
values are then in the argument nodes in order. -/
theorem signature_binds {s : Signature} (hsignature : usableSignature o t = .ok (some s))
    (hnone : s.parameters = [] → t.callArguments = []) (hrest : RestLast s.parameters) :
    ((∃ bound, bindArguments o t = .ok bound) ↔
      ∀ c ∈ kept s.parameters t.callArguments, ∃ n, lowerElement o c = .ok n) ∧
    ∀ bound, bindArguments o t = .ok bound →
      ∃ values, Values o (kept s.parameters t.callArguments) values ∧
        s.parameters.mapIdx (argumentAt values) = bound ∧
        (List.zipWith valuesIn s.parameters bound).flatten = values := by
  simp only [bindArguments_of_signature hsignature hnone hrest]
  constructor
  · rw [← exists_values_iff]
    constructor
    · rintro ⟨_, values, hvalues, -⟩
      exact ⟨values, hvalues⟩
    · rintro ⟨values, hvalues⟩
      exact ⟨_, values, hvalues, rfl⟩
  · rintro _ ⟨values, hvalues, rfl⟩
    exact ⟨values, hvalues, rfl, hvalues.flatten_valuesIn hrest⟩

theorem bindArguments_of_none {s? : Option Signature} (hsignature : usableSignature o t = .ok s?)
    (hparameters : ∀ s, s? = some s → s.parameters = []) {bound : List Node} :
    bindArguments o t = .ok bound ↔ ∃ values, Values o t.callArguments values ∧
      values.map (fun n => .argument (some n) none) = bound := by
  have hpositional : bindArguments o t = positional (t.callArguments.map (lowerElement o)) := by
    rw [bindArguments, assemble, hsignature]
    obtain _ | ⟨_ | ⟨p, ps⟩⟩ := s?
    · rfl
    · rfl
    · cases hparameters _ rfl
  rw [hpositional, positional]
  simp only [bind_eq_ok, pure_eq_ok, gather_map_eq_ok, Values]

theorem Signature.selectOverload?_of_accepts {overloads : List Signature} {argc : Nat}
    (h : ∃ s ∈ overloads, s.accepts argc = true) :
    ∃ s ∈ overloads, selectOverload? overloads argc = some s ∧ s.accepts argc = true := by
  cases hfind : overloads.find? (·.accepts argc) with
  | none =>
    obtain ⟨s, hs, haccepts⟩ := h
    exact absurd haccepts (List.find?_eq_none.mp hfind s hs)
  | some s =>
    have haccepts : s.accepts argc = true := by simpa using List.find?_some hfind
    exact ⟨s, List.mem_of_find?_eq_some hfind, by rw [selectOverload?, hfind], haccepts⟩

theorem usableSignature_of_unbranded {d : Declared} {callee : Tree} {ty : Ty}
    (hcallee : t.callee? = some callee) (hty : d.typeOf callee = some ty)
    (hbrand : d.oracle.callableBrand? ty = none) :
    usableSignature d.oracle t =
      .ok (Signature.selectOverload? (d.signaturesOf ty) t.callArguments.length) := by
  have htype : d.oracle.typeOf callee = some ty := hty
  have hresolved : d.oracle.resolvedSignature t =
      Signature.selectOverload? (d.signaturesOf ty) t.callArguments.length := by
    show d.resolvedSignature t = _
    rw [Declared.resolvedSignature, hcallee]
    simp only [Option.bind_eq_bind, Option.bind_some, hty]
  rw [usableSignature, hcallee, Option.bind_some, htype, Option.bind_some, hbrand, hresolved]

/-- Under a signature with parameters there is one argument node for each parameter, and the
arguments that the parameters have room for are in them in order.  Otherwise all arguments are
bound one by one.  An unbranded callee with an overload that accepts the number of arguments
loses none. -/
theorem arguments_bound_in_order (t : Tree) :
    (∀ (o : Oracle) (s : Signature), usableSignature o t = .ok (some s) → s.parameters ≠ [] →
      RestLast s.parameters →
        ((∃ bound, bindArguments o t = .ok bound) ↔
          ∀ c ∈ kept s.parameters t.callArguments, ∃ n, lowerElement o c = .ok n) ∧
        ∀ bound, bindArguments o t = .ok bound →
          ∃ values, Values o (kept s.parameters t.callArguments) values ∧
            s.parameters.mapIdx (argumentAt values) = bound ∧
            (List.zipWith valuesIn s.parameters bound).flatten = values) ∧
    (∀ (o : Oracle) (s? : Option Signature), usableSignature o t = .ok s? →
      (∀ s, s? = some s → s.parameters = []) →
        ∀ bound, bindArguments o t = .ok bound ↔
          ∃ values, Values o t.callArguments values ∧
            values.map (fun n => .argument (some n) none) = bound) ∧
    ∀ (d : Declared) (callee : Tree) (ty : Ty), t.callee? = some callee →
      d.typeOf callee = some ty → d.oracle.callableBrand? ty = none →
      (∀ s ∈ d.signaturesOf ty, RestLast s.parameters) →
      (∃ s ∈ d.signaturesOf ty, s.accepts t.callArguments.length = true) →
        ∃ s ∈ d.signaturesOf ty, usableSignature d.oracle t = .ok (some s) ∧
          ((∃ bound, bindArguments d.oracle t = .ok bound) ↔
            ∀ c ∈ t.callArguments, ∃ n, lowerElement d.oracle c = .ok n) ∧
          ∀ bound, bindArguments d.oracle t = .ok bound →
            ∃ values, Values d.oracle t.callArguments values ∧
              s.parameters.mapIdx (argumentAt values) = bound ∧
              (List.zipWith valuesIn s.parameters bound).flatten = values := by
  refine ⟨?signature, ?positional, ?accepted⟩
  case signature =>
    intro o s hsignature hparameters hrest
    exact signature_binds hsignature (fun h => absurd h hparameters) hrest
  case positional =>
    intro o s? hsignature hparameters bound
    exact bindArguments_of_none hsignature hparameters
  case accepted =>
    intro d callee ty hcallee hty hbrand hrest haccepts
    obtain ⟨s, hs, hselected, haccepts⟩ := Signature.selectOverload?_of_accepts haccepts
    have hsignature := usableSignature_of_unbranded hcallee hty hbrand
    rw [hselected] at hsignature
    have hkept := kept_of_accepts haccepts
    have hnone (h : s.parameters = []) : t.callArguments = [] := by
      rw [← hkept, h]
      rfl
    have hbinds := signature_binds hsignature hnone (hrest s hs)
    rw [hkept] at hbinds
    exact ⟨s, hs, hsignature, hbinds⟩

def logCall : Tree :=
  .namedNode .callExpression none 0 15 "log(a, ...b, c)"
    [.namedNode .identifier (some "function") 0 3 "log" [],
    .namedNode .arguments (some "arguments") 3 15 "(a, ...b, c)"
      [.namedNode .identifier none 4 5 "a" [],
      .namedNode .spreadElement none 7 11 "...b" [.namedNode .identifier none 10 11 "b" []],
      .namedNode .identifier none 13 14 "c" []]]

/-- Two overloads, of which only the second takes three arguments. -/
def logTypes : Declared where
  bindings := [("log", .name "Log")]
  types := [("Log", { signatures := [["message"], ["", "...parts"]] })]

def logSignature : Signature := ⟨[⟨"", false⟩, ⟨"parts", true⟩]⟩

theorem logCall_bound_in_order :
    usableSignature logTypes.oracle logCall = .ok (some logSignature) ∧
    (∃ values, Values logTypes.oracle logCall.callArguments values ∧
      bindArguments logTypes.oracle logCall =
        .ok [.argument (some (.identifier "a")) none,
          .argument (some (.arrayLiteralExpr [.spreadElementExpr (.identifier "b"),
            .identifier "c"])) (some "parts")] ∧
      values = [.identifier "a", .spreadElementExpr (.identifier "b"), .identifier "c"]) ∧
    (∃ s ∈ logTypes.signaturesOf (.named "Log"),
      usableSignature logTypes.oracle logCall = .ok (some s)) ∧
    ∃ values, Values .noTypes logCall.callArguments values ∧
      bindArguments .noTypes logCall = .ok (values.map fun n => .argument (some n) none) := by
  obtain ⟨hsignature, hpositional, haccepted⟩ := arguments_bound_in_order logCall
  refine ⟨rfl, ?_, ?_, ?_⟩
  · obtain ⟨values, hvalues, -, hflatten⟩ :=
      (hsignature logTypes.oracle logSignature rfl (List.cons_ne_nil _ _) (by decide)).2 _ rfl
    exact ⟨values, hvalues, rfl, hflatten.symm⟩
  · obtain ⟨s, hs, h, -⟩ := haccepted logTypes _ (.named "Log") rfl rfl rfl (by decide)
      ⟨logSignature, by decide, by decide⟩
    exact ⟨s, hs, h⟩
  · obtain ⟨values, hvalues, h⟩ := (hpositional .noTypes none rfl (by simp) _).mp rfl
    exact ⟨values, hvalues, congrArg Except.ok h.symm⟩

end Reify
