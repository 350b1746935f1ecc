/-
Function shapes: parameters, and what makes a function reflectable.
-/
import Reify.Lowering.Failure

namespace Reify

/-- Whether a function is the reflected one or lies inside it. -/
inductive FunctionFlavor
  | declaration | expression
  deriving DecidableEq, Repr

namespace FunctionFlavor

def build : FunctionFlavor → List Node → Node → Node
  | declaration => .functionDecl
  | expression => .functionExpr

end FunctionFlavor

namespace Function

def patternName (pattern : Tree) : Lowering String :=
  match pattern.kind with
  | .identifier => .ok pattern.text
  | .restPattern =>
    match pattern.firstNamedChild? with
    | some name =>
      if name.kind = .identifier then .ok name.text
      else .error (.unsupportedAs pattern.info "destructured rest parameter")
    | none => .error (.unsupportedAs pattern.info "destructured rest parameter")
  | .objectPattern | .arrayPattern =>
    .error (.unsupportedAs pattern.info "destructured parameter")
  | _ => .error (.unsupported pattern.info)

def parameterName (parameter : Tree) : Lowering String :=
  match parameter.kind with
  | .requiredParameter | .optionalParameter =>
    Lowering.required parameter.info ((parameter.childByField? "pattern").map patternName)
  | _ => patternName parameter

/-- The names that a function's parameters bind.  An arrow function may have one bare name in
place of a list. -/
def parameterNames (function : Tree) : Lowering (List String) :=
  match function.childByField? "parameter" with
  | some parameter => .ok [parameter.text]
  | none =>
    match function.childByField? "parameters" with
    | some list => Lowering.gather (list.namedChildren.map parameterName)
    | none => .ok []

/-- The function whose body has the given outcome, without its first `drop` parameters. -/
def assemble (flavor : FunctionFlavor) (drop : Nat) (function : Tree)
    (body : Option (Lowering Node)) : Lowering Node :=
  match function.kind with
  | .arrowFunction | .functionExpression | .functionDeclaration =>
    match body with
    | none => .error (.declarationOnly function.info)
    | some body =>
      if function.hasToken "async" then .error (.unsupportedAs function.info "async function")
      else do
        let names ← parameterNames function
        let body ← body
        return flavor.build ((names.drop drop).map .parameterDecl) body
  | .generatorFunction | .generatorFunctionDeclaration =>
    .error (.unsupportedAs function.info "generator function")
  | _ => .error (.declarationOnly function.info)

end Function
end Reify
