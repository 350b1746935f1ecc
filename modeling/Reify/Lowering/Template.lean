/-
Template literals.

The text of a template is cut at its substitutions.  What stands between them, the backticks
aside, becomes literal parts; an empty piece becomes none.
-/
import Reify.Lowering.Failure
import Reify.Text.Cooked

namespace Reify
namespace Template

def literalPart (raw : List Char) : List TemplatePart :=
  if raw.isEmpty then [] else [.literal (String.ofList (Text.Cooked.cookFrom 0 raw))]

/-- The piece of `text` between two offsets into the source unit, where `text` begins at
`origin`.  Offsets that cut no text give an empty piece. -/
def piece (text : List Char) (origin start stop : Nat) : Lowering (List Char) :=
  if start < origin ∨ stop < origin then .error .underflow
  else .ok ((Text.slice? text (start - origin) (stop - origin)).getD [])

/-- The parts from offset `cursor` on of a template that stops at `stop`, given the span and
the outcome of each substitution. -/
def parts (text : List Char) (origin stop : Nat) (cursor : Nat) :
    List (Span × Lowering Node) → Lowering (List TemplatePart)
  | [] => do return literalPart (← piece text origin cursor (max (stop - 1) cursor))
  | (span, outcome) :: rest => do
    let raw ← piece text origin cursor span.start.toNat
    let node ← outcome
    return literalPart raw ++ .expr node :: (← parts text origin stop span.stop.toNat rest)

def assemble (i : Tree.Info) (substitutions : List (Span × Lowering Node)) : Lowering Node := do
  return .templateExpr (← parts i.text.toList i.span.start.toNat i.span.stop.toNat
    (i.span.start.toNat + 1) substitutions)

end Template
end Reify
