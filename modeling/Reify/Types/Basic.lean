/-
Types and call signatures, as far as lowering needs them.
-/

namespace Reify

inductive Ty
  /-- A type known by its name. -/
  | named (name : String)
  /-- The type of one string. -/
  | literal (value : String)
  deriving DecidableEq, Repr

namespace Ty

/-- The string, if this is the type of one. -/
def literal? : Ty → Option String
  | literal value => some value
  | named _ => none

def display : Ty → String
  | named name => name
  | literal value => "\"" ++ value ++ "\""

end Ty

structure Parameter where
  /-- The declared name, which may be empty. -/
  name : String
  /-- Whether the parameter collects all remaining arguments. -/
  rest : Bool
  deriving DecidableEq, Repr

structure Signature where
  parameters : List Parameter
  deriving DecidableEq, Repr

namespace Signature

/-- Whether `argc` positional arguments can bind to the signature. -/
def accepts (s : Signature) (argc : Nat) : Bool :=
  argc ≤ s.parameters.length || s.parameters.any (·.rest)

/-- The first overload that accepts `argc` arguments, else the first of all. -/
def selectOverload? (overloads : List Signature) (argc : Nat) : Option Signature :=
  match overloads.find? (·.accepts argc) with
  | some s => some s
  | none => overloads.head?

end Signature
end Reify
