/-
The parameters that a function leaves out.

The first parameters of a function may be supplied by the framework, and lowering leaves these
out.  It reads the names of all parameters before it does.  So the outcome is that of the
function without them as long as each binds a name, and a function that would be reflected
without them fails by the first that binds none.
-/
import Reify.Proofs.Lowering.Accepted

namespace Reify

open Lowering

/-! ## Outcomes in order -/

section Gather

variable {α β : Type} {f : α → Lowering β}

/-- The results of the first items are left out after all items were read. -/
theorem Lowering.gather_drop {xs : List α} {k : Nat} (h : ∀ x ∈ xs.take k, ∃ b, f x = .ok b) :
    (gather (xs.map f)).map (List.drop k) = gather ((xs.drop k).map f) := by
  induction xs generalizing k with
  | nil => rw [List.drop_nil, List.map_nil, gather, Except.map, List.drop_nil]
  | cons x xs ih =>
    cases k with
    | zero =>
      rw [List.drop_zero]
      cases gather ((x :: xs).map f) <;> rfl
    | succ k =>
      rw [List.take_succ_cons, List.forall_mem_cons] at h
      obtain ⟨b, hb⟩ := h.1
      rw [List.drop_succ_cons, ← ih h.2, List.map_cons, gather, hb]
      cases gather (xs.map f) <;> rfl

theorem Lowering.gather_eq_error {pre post : List α} {x : α} {e : Failure}
    (hpre : ∀ y ∈ pre, ∃ b, f y = .ok b) (hx : f x = .error e) :
    gather ((pre ++ x :: post).map f) = .error e := by
  induction pre with
  | nil =>
    rw [List.nil_append, List.map_cons, gather, hx]
    rfl
  | cons y pre ih =>
    rw [List.forall_mem_cons] at hpre
    obtain ⟨b, hb⟩ := hpre.1
    rw [List.cons_append, List.map_cons, gather, hb, ih hpre.2]
    rfl

end Gather

/-! ## Parameters that bind a name -/

theorem Tree.namePattern_of_ok {t : Tree} {name : String}
    (h : Function.patternName t = .ok name) : t.NamePattern := by
  unfold Function.patternName at h
  split at h
  · next hkind => exact .name hkind
  · next hkind =>
    split at h
    · next operand hoperand =>
      split at h
      · next hidentifier => exact .rest hkind hoperand hidentifier
      · cases h
    · cases h
  all_goals cases h

theorem Tree.nameParameter_iff {t : Tree} :
    t.NameParameter ↔ ∃ name, Function.parameterName t = .ok name := by
  refine ⟨fun h => h.succeeds.exists_ok, ?_⟩
  rintro ⟨name, h⟩
  unfold Function.parameterName at h
  split at h
  case h_3 => exact .bare (namePattern_of_ok h)
  case h_1 hkind =>
    obtain ⟨pattern, hpattern, hname⟩ := required_map_eq_ok.mp h
    exact .typed (.inl hkind) hpattern (namePattern_of_ok hname)
  case h_2 hkind =>
    obtain ⟨pattern, hpattern, hname⟩ := required_map_eq_ok.mp h
    exact .typed (.inr hkind) hpattern (namePattern_of_ok hname)

theorem Tree.exists_error_of_not_nameParameter {t : Tree} (h : ¬t.NameParameter) :
    ∃ e, Function.parameterName t = .error e := by
  cases hname : Function.parameterName t with
  | error e => exact ⟨e, rfl⟩
  | ok name => exact absurd (nameParameter_iff.mpr ⟨name, hname⟩) h

/-! ## Functions with other parameters -/

namespace Tree

/-- The function has this parameter list, and no bare name in place of one. -/
structure ParameterList (t list : Tree) : Prop where
  bare : t.childByField? "parameter" = none
  list : t.childByField? "parameters" = some list

def withEntries (entries : List Tree) (c : Tree) : Tree :=
  if inField "parameters" c then .node c.info entries else c

def withParameters (entries : List Tree) (t : Tree) : Tree :=
  .node t.info (t.children.map (withEntries entries))

variable {t list : Tree} {entries : List Tree}

theorem info_withEntries (entries : List Tree) (c : Tree) : (withEntries entries c).info = c.info := by
  unfold withEntries
  split <;> rfl

theorem childByField?_withParameters (entries : List Tree) (t : Tree) (name : String) :
    (t.withParameters entries).childByField? name =
      (t.childByField? name).map (withEntries entries) := by
  have hfield : inField name ∘ withEntries entries = inField name := by
    funext c
    rw [Function.comp_apply, inField, field, info_withEntries]
    rfl
  rw [childByField?, withParameters, children, List.find?_map, hfield]
  rfl

theorem hasToken_withParameters (entries : List Tree) (t : Tree) (token : String) :
    (t.withParameters entries).hasToken token = t.hasToken token := by
  rw [hasToken, withParameters, children, List.any_map]
  congr 1
  funext c
  rw [Function.comp_apply, named, text, info_withEntries]
  rfl

theorem ParameterList.withParameters (h : t.ParameterList list) (entries : List Tree) :
    (t.withParameters entries).ParameterList (.node list.info entries) := by
  have hfield : inField "parameters" list = true := List.find?_some h.list
  refine ⟨?_, ?_⟩
  · rw [childByField?_withParameters, h.bare, Option.map_none]
  · rw [childByField?_withParameters, h.list, Option.map_some, withEntries, if_pos hfield]

end Tree

variable {o : Oracle} {t list : Tree} {entries : List Tree}

theorem Tree.ParameterList.parameterNames (h : t.ParameterList list) :
    Function.parameterNames t = gather (list.namedChildren.map Function.parameterName) := by
  rw [Function.parameterNames, h.bare, h.list]

theorem body_withParameters (o : Oracle) (entries : List Tree) (t : Tree) :
    ((t.withParameters entries).childByField? "body").map (lowerAt o .functionBody) =
      (t.childByField? "body").map (lowerAt o .functionBody) := by
  rw [Tree.childByField?_withParameters]
  cases hbody : t.childByField? "body" with
  | none => rfl
  | some body =>
    have hfield : Tree.inField "body" body = true := List.find?_some hbody
    have hnot : ¬Tree.inField "parameters" body = true := by
      rw [Tree.inField, beq_iff_eq] at hfield ⊢
      rw [hfield]
      decide
    rw [Option.map_some, Tree.withEntries, if_neg hnot]

/-! ## Leaving parameters out -/

section Dropped

variable {flavor : FunctionFlavor} {k j : Nat} {body : Option (Lowering Node)}

theorem bind_drop (names : Lowering (List String)) (body : Lowering Node) :
    (do
      let names ← names
      let body ← body
      return flavor.build ((names.drop k).map .parameterDecl) body) =
    (do
      let names ← names.map (List.drop k)
      let body ← body
      return flavor.build (names.map .parameterDecl) body) := by
  cases names <;> rfl

/-- With the same names after those that are left out, the outcome is the same. -/
theorem assemble_withParameters
    (h : (Function.parameterNames t).map (List.drop k) =
      (Function.parameterNames (t.withParameters entries)).map (List.drop j)) :
    Function.assemble flavor k t body =
      Function.assemble flavor j (t.withParameters entries) body := by
  have hkind : (t.withParameters entries).kind = t.kind := rfl
  have hinfo : (t.withParameters entries).info = t.info := rfl
  unfold Function.assemble
  rw [Tree.hasToken_withParameters, hkind, hinfo]
  simp only [bind_drop, h]

/-- A function that lowers with other parameters fails if one of its own has no name. -/
theorem lowerFunction_eq_error {n : Node} {e : Failure}
    (h : lowerFunction o flavor j (t.withParameters entries) = .ok n)
    (hnames : Function.parameterNames t = .error e) : lowerFunction o flavor k t = .error e := by
  obtain ⟨names, b, hform, -⟩ : ∃ names b, FunctionForm o (t.withParameters entries) names b ∧
      n = flavor.build ((names.drop j).map .parameterDecl) b := assemble_function_iff.mp h
  have hkind : t.kind = .arrowFunction ∨ t.kind = .functionExpression ∨
      t.kind = .functionDeclaration := hform.kind
  have hsync : t.hasToken "async" = false := by
    rw [← Tree.hasToken_withParameters entries]
    exact hform.sync
  obtain ⟨body, hbody, -⟩ := hform.body
  rw [Tree.childByField?_withParameters, Option.map_eq_some_iff] at hbody
  obtain ⟨c, hc, -⟩ := hbody
  rw [lowerFunction_eq_assemble, hc, Option.map_some, assemble_plain hkind hsync, hnames]
  rfl

/-- Leaving the first parameters out gives what the function without them gives, if each of them
binds a name.  The first that binds none makes a function fail that would be reflected without
it. -/
theorem dropped_parameters_irrelevant (o : Oracle) (flavor : FunctionFlavor) (k : Nat)
    (hlist : t.ParameterList list)
    (hentries : entries.filter Tree.isOperand = list.namedChildren.drop k) :
    ((∀ p ∈ list.namedChildren.take k, p.NameParameter) →
      lowerFunction o flavor k t = lowerFunction o flavor 0 (t.withParameters entries)) ∧
    ∀ (pre post : List Tree) (p : Tree), list.namedChildren.take k = pre ++ p :: post →
      (∀ q ∈ pre, q.NameParameter) → ¬p.NameParameter →
      (∃ n, lowerFunction o flavor 0 (t.withParameters entries) = .ok n) →
      ∃ e, Function.parameterName p = .error e ∧ lowerFunction o flavor k t = .error e := by
  have hrest : Function.parameterNames (t.withParameters entries) =
      gather ((list.namedChildren.drop k).map Function.parameterName) := by
    rw [(hlist.withParameters entries).parameterNames, Tree.namedChildren, Tree.children, hentries]
  constructor
  · intro hdropped
    rw [lowerFunction_eq_assemble, lowerFunction_eq_assemble, body_withParameters]
    refine assemble_withParameters ?_
    rw [hrest, hlist.parameterNames,
      gather_drop fun p hp => Tree.nameParameter_iff.mp (hdropped p hp)]
    cases gather ((list.namedChildren.drop k).map Function.parameterName) <;> rfl
  · rintro pre post p hsplit hpre hp ⟨n, hn⟩
    obtain ⟨e, he⟩ := Tree.exists_error_of_not_nameParameter hp
    refine ⟨e, he, lowerFunction_eq_error hn ?_⟩
    -- All names are gathered, also those that are left out, and `p` is the first without one.
    rw [hlist.parameterNames, ← List.take_append_drop k list.namedChildren, hsplit,
      List.append_assoc, List.cons_append]
    exact gather_eq_error (fun q hq => Tree.nameParameter_iff.mp (hpre q hq)) he

end Dropped

def lastParameter : Tree :=
  .node ⟨.requiredParameter, none, true, ⟨24, 25⟩, "c"⟩
    [.node ⟨.identifier, some "pattern", true, ⟨24, 25⟩, "c"⟩ []]

def twoParameters (pattern : Tree) : Tree :=
  .node ⟨.formalParameters, some "parameters", true, ⟨16, 26⟩, "(" ++ pattern.text ++ ", c)"⟩
    [.node ⟨.unknown "(", none, false, ⟨16, 17⟩, "("⟩ [],
      .node ⟨.requiredParameter, none, true, ⟨17, 22⟩, pattern.text⟩ [pattern],
      .node ⟨.unknown ",", none, false, ⟨22, 23⟩, ","⟩ [],
      lastParameter,
      .node ⟨.unknown ")", none, false, ⟨25, 26⟩, ")"⟩ []]

def answerLast (pattern : Tree) : Tree :=
  .node ⟨.arrowFunction, none, true, ⟨16, 31⟩, "(" ++ pattern.text ++ ", c) => c"⟩
    [twoParameters pattern,
      .node ⟨.unknown "=>", none, false, ⟨27, 29⟩, "=>"⟩ [],
      .node ⟨.identifier, some "body", true, ⟨30, 31⟩, "c"⟩ []]

def scopeName : Tree := .node ⟨.identifier, some "pattern", true, ⟨17, 22⟩, "scope"⟩ []

def scopePattern : Tree :=
  .node ⟨.objectPattern, some "pattern", true, ⟨17, 22⟩, "\x7b x \x7d"⟩ []

/-- A first parameter that has a name can be left out, and one that is a pattern cannot. -/
theorem answerLast_dropped :
    lowerFunction .noTypes .declaration 1 (answerLast scopeName) =
      .ok (.functionDecl [.parameterDecl "c"] (.blockStmt [.returnStmt (.identifier "c")])) ∧
    lowerFunction .noTypes .declaration 1 (answerLast scopePattern) =
      .error (.refused (.unsupportedConstruct "destructured parameter" "\x7b x \x7d" ⟨17, 5⟩)) := by
  have hlist (pattern : Tree) : (answerLast pattern).ParameterList (twoParameters pattern) :=
    ⟨rfl, rfl⟩
  have hentries (pattern : Tree) :
      [lastParameter].filter Tree.isOperand = (twoParameters pattern).namedChildren.drop 1 := rfl
  constructor
  · have hscope : Tree.NamePattern scopeName := .name rfl
    have hdropped :=
      dropped_parameters_irrelevant .noTypes .declaration 1 (hlist scopeName) (hentries scopeName)
    refine (hdropped.1 ?_).trans rfl
    intro p hp
    obtain rfl := List.mem_singleton.mp hp
    exact .typed (.inl rfl) rfl hscope
  · have hunnamed : Function.parameterName
          (.node ⟨.requiredParameter, none, true, ⟨17, 22⟩, scopePattern.text⟩ [scopePattern]) =
        .error (.refused (.unsupportedConstruct "destructured parameter" "\x7b x \x7d" ⟨17, 5⟩)) :=
      rfl
    have hdropped := dropped_parameters_irrelevant .noTypes .declaration 1 (hlist scopePattern)
      (hentries scopePattern)
    have hnot : ¬Tree.NameParameter
        (.node ⟨.requiredParameter, none, true, ⟨17, 22⟩, scopePattern.text⟩ [scopePattern]) := by
      rw [Tree.nameParameter_iff, hunnamed]
      rintro ⟨name, h⟩
      cases h
    obtain ⟨e, he, hfailed⟩ := hdropped.2 [] [] _ rfl (List.forall_mem_nil _) hnot ⟨_, rfl⟩
    obtain rfl := Except.error.inj (hunnamed.symm.trans he)
    exact hfailed

end Reify
