/-
Lowering does not fault.

The machinery fails only where a length or an offset would be negative: where a span stops
before it starts, or a child lies outside its parent.  In a tree in which every node covers its
children neither happens, whatever the oracle answers, so a failure is a refusal with a node to
point at (`Blamed.refused`), and the error that stands for it is of one of four classes.
-/
import Reify.Proofs.Lowering.Blame

namespace Reify

open Lowering

def LoweringError.names : List String :=
  ["UnsupportedConstructError", "UnsupportedOperatorError", "MultipleSignaturesError",
    "DeclarationOnlyFunctionError"]

theorem LoweringError.name_mem_names (e : LoweringError) : e.name ∈ names := by
  cases e <;> simp [name, names]

theorem LoweringError.internalError_notMem_names : Failure.internalError ∉ names := by decide

variable {o : Oracle} {t : Tree} {f : Failure}

/-! ## Refusals -/

theorem usableSignature_eq_error (h : Arguments.usableSignature o t = .error f) :
    ∃ count, f = .multipleSignatures t.info count := by
  unfold Arguments.usableSignature at h
  split at h
  · cases h
  · split at h
    · cases h
    · cases h
    · exact ⟨_, (Except.error.inj h).symm⟩

theorem Blamed.refused (h : Blamed o t f) (hcovers : t.Everywhere Tree.Covers) :
    ∃ e, f = .refused e := by
  obtain ⟨p, d, hd, hcause⟩ := h
  have hhere : d.Covers := hcovers p d hd
  cases hcause with
  | construct kind =>
    obtain ⟨e, he⟩ := refusal_of_covers hhere (.unsupportedConstruct kind)
    exact ⟨_, he⟩
  | operator token =>
    obtain ⟨e, he⟩ := refusal_of_covers hhere (.unsupportedOperator token)
    exact ⟨_, he⟩
  | overloaded many =>
    obtain ⟨count, rfl⟩ := usableSignature_eq_error many
    obtain ⟨e, he⟩ := refusal_of_covers hhere (.multipleSignatures count)
    exact ⟨_, he⟩
  | bodyless _ _ =>
    obtain ⟨e, he⟩ := refusal_of_covers hhere .declarationOnlyFunction
    exact ⟨_, he⟩
  | cut uncovered => exact absurd (hcovers.at? hd) uncovered

/-- What is no function at all is refused where it stands. -/
theorem lowerFunction_of_not_function (o : Oracle) (flavor : FunctionFlavor) (drop : Nat)
    (h : t.isFunctionLike = false) :
    lowerFunction o flavor drop t = .error (.declarationOnly t.info) := by
  unfold lowerFunction Function.assemble
  unfold Tree.isFunctionLike at h
  split
  case h_6 => rfl
  all_goals
    next hkind =>
      rw [hkind] at h
      cases h

/-- Where every node covers its children, a function is lowered or refused. -/
theorem lowerFunction_refused (hcovers : t.Everywhere Tree.Covers) {flavor : FunctionFlavor}
    {drop : Nat} (h : lowerFunction o flavor drop t = .error f) : ∃ e, f = .refused e := by
  cases hlike : t.isFunctionLike with
  | true => exact (lowerFunction_fails o flavor drop hlike f h).refused hcovers
  | false =>
    rw [lowerFunction_of_not_function o flavor drop hlike] at h
    obtain ⟨e, he⟩ := refusal_of_covers hcovers.here .declarationOnlyFunction
    exact ⟨_, (Except.error.inj h).symm.trans he⟩

theorem lowerReflected_eq_err {drop : Nat} {e : ErrorValue}
    (h : lowerReflected o drop t = .err e) :
    ∃ f, lowerFunction o .declaration drop t = .error f ∧ f.toNode = .err e := by
  unfold lowerReflected at h
  cases hlowered : lowerFunction o .declaration drop t with
  | error f =>
    rw [hlowered] at h
    exact ⟨f, rfl, h⟩
  | ok n =>
    rw [hlowered] at h
    obtain ⟨info, children⟩ := t
    obtain ⟨names, b, -, rfl⟩ := assemble_function_iff.mp hlowered
    cases h

/-- In a tree whose spans run forward and cover those of the children, lowering does not fault:
no offset into a template and no length of a refused node is negative.  An error in place of a
reflected function stands for a refusal, so it is of one of the four classes of refusals and no
internal error. -/
theorem lowering_never_faults (o : Oracle) {t : Tree} (h : t.Everywhere Tree.Covers)
    (drop : Nat) :
    (∀ flavor message, lowerFunction o flavor drop t ≠ .error (.fault message)) ∧
      ∀ e, lowerReflected o drop t = .err e →
        (∃ cause, lowerFunction o .declaration drop t = .error (.refused cause) ∧
          e = cause.toErrorValue) ∧
        e.name ∈ LoweringError.names ∧ e.name ≠ Failure.internalError := by
  constructor
  · intro flavor message hfault
    obtain ⟨e, he⟩ := lowerFunction_refused h hfault
    cases he
  · intro e he
    obtain ⟨f, hfails, hnode⟩ := lowerReflected_eq_err he
    obtain ⟨cause, rfl⟩ := lowerFunction_refused h hfails
    obtain rfl := Node.err.inj hnode
    have hname : cause.toErrorValue.name ∈ LoweringError.names := cause.name_mem_names
    refine ⟨⟨cause, hfails, rfl⟩, hname, ?_⟩
    rintro hinternal
    rw [hinternal] at hname
    exact LoweringError.internalError_notMem_names hname

/-- The tree of `` () => `a${this}b` `` from byte 8 on, its substitution from byte `start` on. -/
def quoteThis (start : UInt32) : Tree :=
  .node ⟨.arrowFunction, none, true, ⟨8, 25⟩, "() => `a$\x7bthis\x7db`"⟩
    [.node ⟨.templateString, some "body", true, ⟨14, 25⟩, "`a$\x7bthis\x7db`"⟩
      [.node ⟨.templateSubstitution, none, true, ⟨start, 23⟩, "$\x7bthis\x7d"⟩
        [.node ⟨.unknown "$\x7b", none, false, ⟨16, 18⟩, "$\x7b"⟩ [],
          .node ⟨.thisExpression, none, true, ⟨18, 22⟩, "this"⟩ [],
          .node ⟨.unknown "\x7d", none, false, ⟨22, 23⟩, "\x7d"⟩ []]]]

theorem quoteThis_never_faults :
    (quoteThis 16).Everywhere Tree.Covers ∧
      lowerReflected .noTypes 0 (quoteThis 16) =
        .err ⟨"UnsupportedConstructError", "unsupported this: `this`"⟩ ∧
      "UnsupportedConstructError" ∈ LoweringError.names := by
  have hcovers : (quoteThis 16).Everywhere Tree.Covers := by decide
  have herr : lowerReflected .noTypes 0 (quoteThis 16) =
      .err ⟨"UnsupportedConstructError", "unsupported this: `this`"⟩ := by rfl
  exact ⟨hcovers, herr, ((lowering_never_faults .noTypes hcovers 0).2 _ herr).2.1⟩

/-- A substitution that starts before its template is a fault. -/
example : lowerReflected .noTypes 0 (quoteThis 10) =
    .err ⟨Failure.internalError, "attempt to subtract with overflow"⟩ := by rfl

end Reify
