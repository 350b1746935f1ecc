/-
How lowering fails.

A refusal says which node is outside the reflectable subset and why; it quotes the node's text
and points at its span.  A fault is a failure of the machinery itself, such as a span that
stops before it starts.
-/
import Reify.Diagnostic
import Reify.Node.Basic
import Reify.Tree.Basic

namespace Reify

/-- Why a function cannot be reflected, with the text and place of the node at fault. -/
inductive LoweringError
  | unsupportedConstruct (kind text : String) (span : Extent)
  | unsupportedOperator (operator text : String) (span : Extent)
  /-- The function that a callable wrapper wraps is overloaded. -/
  | multipleSignatures (count : Nat) (text : String) (span : Extent)
  /-- A slot holds something else than a function with a body. -/
  | declarationOnlyFunction (text : String) (span : Extent)
  deriving DecidableEq, Repr

namespace LoweringError

def name : LoweringError → String
  | unsupportedConstruct .. => "UnsupportedConstructError"
  | unsupportedOperator .. => "UnsupportedOperatorError"
  | multipleSignatures .. => "MultipleSignaturesError"
  | declarationOnlyFunction .. => "DeclarationOnlyFunctionError"

def message : LoweringError → String
  | unsupportedConstruct kind text _ => "unsupported " ++ kind ++ ": `" ++ text ++ "`"
  | unsupportedOperator operator text _ =>
    "unsupported operator `" ++ operator ++ "` in `" ++ text ++ "`"
  | multipleSignatures count text _ =>
    "`" ++ text ++ "` has " ++ Nat.repr count ++ " call signatures, expected at most one"
  | declarationOnlyFunction text _ => "expected a function with a body, found `" ++ text ++ "`"

def text : LoweringError → String
  | unsupportedConstruct _ text _ | unsupportedOperator _ text _ | multipleSignatures _ text _
  | declarationOnlyFunction text _ => text

def span : LoweringError → Extent
  | unsupportedConstruct _ _ span | unsupportedOperator _ _ span | multipleSignatures _ _ span
  | declarationOnlyFunction _ span => span

def diagnostic : LoweringError → Diagnostic
  | unsupportedConstruct _ _ span =>
    ⟨"lower::unsupported_construct",
      some ("reflected functions support a subset of TypeScript without classes, " ++
        "generators or async code"),
      [("not supported in a reflected function", span)]⟩
  | unsupportedOperator operator _ span =>
    ⟨"lower::unsupported_operator", none, [("`" ++ operator ++ "` cannot be reflected", span)]⟩
  | multipleSignatures _ _ span =>
    ⟨"lower::multiple_signatures", none, [("overloaded callee", span)]⟩
  | declarationOnlyFunction _ span =>
    ⟨"lower::declaration_only_function", some "pass an arrow function or function expression",
      [("no function body here", span)]⟩

def toErrorValue (e : LoweringError) : ErrorValue := ⟨e.name, e.message⟩

end LoweringError

inductive Failure
  | refused (error : LoweringError)
  /-- A failure of the machinery, with its message if it has one. -/
  | fault (message : Option String)
  deriving DecidableEq, Repr

namespace Failure

/-- A length or offset would be negative. -/
def underflow : Failure := fault (some "attempt to subtract with overflow")

/-- The refusal of a node, which needs a place to point at. -/
def refusal (i : Tree.Info) (error : String → Extent → LoweringError) : Failure :=
  match i.span.extent? with
  | some e => refused (error i.text e)
  | none => underflow

def unsupportedAs (i : Tree.Info) (kind : String) : Failure :=
  refusal i (.unsupportedConstruct kind)

def unsupported (i : Tree.Info) : Failure := unsupportedAs i i.kind.words

def operator (i : Tree.Info) (token : String) : Failure := refusal i (.unsupportedOperator token)

def multipleSignatures (i : Tree.Info) (count : Nat) : Failure :=
  refusal i (.multipleSignatures count)

def declarationOnly (i : Tree.Info) : Failure := refusal i .declarationOnlyFunction

def internalError : String := "InternalError"

def toNode : Failure → Node
  | refused error => .err error.toErrorValue
  | fault message => .err ⟨internalError, message.getD "lowering panicked"⟩

end Failure

abbrev Lowering (α : Type) := Except Failure α

namespace Lowering

variable {α : Type}

/-- The outcomes in order, up to the first failure. -/
def gather : List (Lowering α) → Lowering (List α)
  | [] => .ok []
  | r :: rs => do return (← r) :: (← gather rs)

theorem gather_eq_ok_iff {rs : List (Lowering α)} {as : List α} :
    gather rs = .ok as ↔ rs = as.map .ok := by
  induction rs generalizing as with
  | nil => cases as <;> simp [gather]
  | cons r rs ih =>
    cases r with
    | error f => cases as <;> simp [gather, bind, Except.bind]
    | ok a =>
      cases h : gather rs with
      | error f =>
        cases as with
        | nil => simp [gather, h, bind, Except.bind]
        | cons b bs =>
          have hbs := mt ih.mpr (by simp [h] : ¬gather rs = .ok bs)
          simp [gather, h, bind, Except.bind, hbs]
      | ok cs =>
        cases as with
        | nil => simp [gather, h, bind, Except.bind, pure, Except.pure]
        | cons b bs => simp [gather, h, bind, Except.bind, pure, Except.pure, ← ih]

def required (i : Tree.Info) : Option (Lowering α) → Lowering α
  | some r => r
  | none => .error (.unsupported i)

def optional : Option (Lowering α) → Lowering (Option α)
  | some r => do return some (← r)
  | none => .ok none

/-- The node itself, or the error that stands for a failure: whatever goes wrong in one
function ends there. -/
def contain : Lowering Node → Node
  | .ok n => n
  | .error f => f.toNode

end Lowering

end Reify
