/-
Arguments and template parts that lower.

Both are lists that are not read one by one: an argument list goes through the parameters of a
signature, and a template through the offsets of its substitutions.  `BoundForm` says which
arguments a list of parameters is bound to; `parts_nodes` says that the expressions among the
parts of a template are what its substitutions lower to.
-/
import Reify.Proofs.Lowering.Form

namespace Reify

open Lowering

variable {o : Oracle}

/-! ## Arguments -/

/-- The value that parameter number `index` is bound to: an array of all arguments from there
on, or the argument at that index if there is one. -/
inductive ValueForm (o : Oracle) (supplied : List Tree) (index : Nat) (p : Parameter) :
    Option Node → Prop
  | rest {ns} (rest : p.rest = true)
      (lowered : List.Forall₂ (fun c n => lowerAt o .element c = .ok n) (supplied.drop index) ns) :
    ValueForm o supplied index p (some (.arrayLiteralExpr ns))
  | plain {n?} (plain : p.rest = false)
      (lowered : Option.Rel (fun c n => lowerAt o .element c = .ok n) supplied[index]? n?) :
    ValueForm o supplied index p n?

inductive BoundForm (o : Oracle) (supplied : List Tree) : Nat → List Parameter → List Node → Prop
  | nil {index} : BoundForm o supplied index [] []
  | cons {index p ps n? ns} (value : ValueForm o supplied index p n?)
      (tail : BoundForm o supplied (index + 1) ps ns) :
    BoundForm o supplied index (p :: ps) (.argument n? (Arguments.nameOf p) :: ns)

/-- The arguments of an invocation: one for each parameter of its signature, or one for each
value if there is no signature or it has no parameters. -/
inductive ArgumentsForm (o : Oracle) (t : Tree) : List Node → Prop
  | bound {p ps ns} (signature : Arguments.usableSignature o t = .ok (some ⟨p :: ps⟩))
      (bound : BoundForm o t.callArguments 0 (p :: ps) ns) : ArgumentsForm o t ns
  | positional {s? ns} (signature : Arguments.usableSignature o t = .ok s?)
      (free : ∀ p ps, s? ≠ some ⟨p :: ps⟩)
      (lowered : List.Forall₂ (fun c n => lowerAt o .element c = .ok n) t.callArguments ns) :
    ArgumentsForm o t (ns.map fun n => .argument (some n) none)

theorem valueFor_form {supplied : List Tree} {index : Nat} {p : Parameter} {n? : Option Node}
    (h : Arguments.valueFor (supplied.map (lowerElement o)) index p = .ok n?) :
    ValueForm o supplied index p n? := by
  unfold Arguments.valueFor at h
  split at h
  · next hrest =>
    obtain ⟨ns, hns, h⟩ := bind_eq_ok.mp h
    obtain rfl := pure_eq_ok.mp h
    rw [← List.map_drop] at hns
    exact .rest hrest (gather_map_eq_ok.mp hns)
  · next hrest =>
    rw [Bool.not_eq_true] at hrest
    rw [List.getElem?_map] at h
    exact .plain hrest (optional_map_eq_ok.mp h)

theorem bindFrom_form {supplied : List Tree} {ps : List Parameter} {index : Nat}
    {ns : List Node}
    (h : Arguments.bindFrom (supplied.map (lowerElement o)) index ps = .ok ns) :
    BoundForm o supplied index ps ns := by
  induction ps generalizing index ns with
  | nil =>
    obtain rfl := Except.ok.inj h
    exact .nil
  | cons p ps ih =>
    rw [Arguments.bindFrom] at h
    obtain ⟨n?, hn, h⟩ := bind_eq_ok.mp h
    obtain ⟨ms, hms, h⟩ := bind_eq_ok.mp h
    obtain rfl := pure_eq_ok.mp h
    exact .cons (valueFor_form hn) (ih hms)

theorem bindArguments_form {t : Tree} {ns : List Node} (h : bindArguments o t = .ok ns) :
    ArgumentsForm o t ns := by
  unfold bindArguments Arguments.assemble at h
  obtain ⟨s?, hs, h⟩ := bind_eq_ok.mp h
  split at h
  · exact .bound hs (bindFrom_form h)
  · next hfree =>
    unfold Arguments.positional at h
    obtain ⟨ms, hms, h⟩ := bind_eq_ok.mp h
    obtain rfl := pure_eq_ok.mp h
    exact .positional hs hfree (gather_map_eq_ok.mp hms)

/-! ## Template parts -/

theorem literalPart_nodes (raw : List Char) :
    (Template.literalPart raw).filterMap TemplatePart.node? = [] := by
  unfold Template.literalPart
  split <;> rfl

theorem parts_nodes {text : List Char} {origin stop cursor : Nat}
    {substitutions : List (Span × Lowering Node)} {parts : List TemplatePart}
    (h : Template.parts text origin stop cursor substitutions = .ok parts) :
    substitutions.map Prod.snd = (parts.filterMap TemplatePart.node?).map .ok := by
  induction substitutions generalizing cursor parts with
  | nil =>
    rw [Template.parts] at h
    obtain ⟨raw, -, h⟩ := bind_eq_ok.mp h
    obtain rfl := pure_eq_ok.mp h
    rw [literalPart_nodes]
    rfl
  | cons substitution substitutions ih =>
    obtain ⟨span, outcome⟩ := substitution
    rw [Template.parts] at h
    obtain ⟨raw, -, h⟩ := bind_eq_ok.mp h
    obtain ⟨node, hnode, h⟩ := bind_eq_ok.mp h
    obtain ⟨rest, hrest, h⟩ := bind_eq_ok.mp h
    obtain rfl := pure_eq_ok.mp h
    rw [List.filterMap_append, literalPart_nodes, List.nil_append, List.filterMap_cons]
    simp only [TemplatePart.node?]
    rw [List.map_cons, List.map_cons, hnode, ih hrest]

theorem assemble_template_form {i : Tree.Info} {ts : List Tree} {n : Node}
    (h : Template.assemble i ((ts.map Tree.span).zip (ts.map (lowerAt o .substitution))) =
      .ok n) :
    ∃ parts, n = .templateExpr parts ∧
      List.Forall₂ (fun c m => lowerAt o .substitution c = .ok m) ts
        (parts.filterMap TemplatePart.node?) := by
  obtain ⟨parts, hparts, h⟩ := bind_eq_ok.mp h
  obtain rfl := pure_eq_ok.mp h
  refine ⟨parts, rfl, map_eq_map_ok_iff.mp ?_⟩
  have hnodes := parts_nodes hparts
  rw [List.map_snd_zip (by simp)] at hnodes
  exact hnodes

end Reify
