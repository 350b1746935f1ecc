/-
Binding of arguments to parameters.

Under a signature with parameters there is one argument node per parameter, named after it: a
rest parameter collects the remaining arguments in an array, and a parameter without argument
stays empty.  Without such a signature every argument is bound once, in order and unnamed.
-/
import Reify.Lowering.Failure
import Reify.Types.Oracle

namespace Reify
namespace Arguments

def nameOf (p : Parameter) : Option String := if p.name = "" then none else some p.name

def valueFor (supplied : List (Lowering Node)) (index : Nat) (p : Parameter) :
    Lowering (Option Node) :=
  if p.rest then do
    return some (.arrayLiteralExpr (← Lowering.gather (supplied.drop index)))
  else Lowering.optional supplied[index]?

def bindFrom (supplied : List (Lowering Node)) (index : Nat) :
    List Parameter → Lowering (List Node)
  | [] => .ok []
  | p :: ps => do
    let value ← valueFor supplied index p
    return .argument value (nameOf p) :: (← bindFrom supplied (index + 1) ps)

def positional (supplied : List (Lowering Node)) : Lowering (List Node) := do
  return (← Lowering.gather supplied).map fun n => .argument (some n) none

/-- The signature that an invocation binds against.  A callable wrapper is bound against the
function it wraps, which must not be overloaded. -/
def usableSignature (o : Oracle) (invocation : Tree) : Lowering (Option Signature) :=
  match (invocation.callee?.bind o.typeOf).bind o.callableBrand? with
  | none => .ok (o.resolvedSignature invocation)
  | some branded =>
    match o.signaturesOf branded with
    | [] => .ok none
    | [s] => .ok (some s)
    | ss => .error (.multipleSignatures invocation.info ss.length)

def assemble (o : Oracle) (invocation : Tree) (supplied : List (Lowering Node)) :
    Lowering (List Node) := do
  match ← usableSignature o invocation with
  | some ⟨p :: ps⟩ => bindFrom supplied 0 (p :: ps)
  | _ => positional supplied

end Arguments
end Reify
