/-
Which invocations hold functions to reflect.

The rules are tried in order: a call of `reflect` with one argument; a call of `when` or `map`
on an event bus or rule whose last argument is a function; a construction of a marked component
with a fitting number of arguments.  Anything else is passed over.
-/
import Reify.Types.Oracle

namespace Reify

/-- The sort of invocation a reflected function was found in. -/
inductive ConstructKind
  | reflect | resolver | stepFunction | expressStepFunction | eventBusRule | eventBusTransform
  | when | map
  deriving DecidableEq, Repr

namespace ConstructKind

def all : List ConstructKind :=
  [reflect, resolver, stepFunction, expressStepFunction, eventBusRule, eventBusTransform, when,
    map]

def name : ConstructKind → String
  | reflect => "reflect"
  | resolver => "Resolver"
  | stepFunction => "StepFunction"
  | expressStepFunction => "ExpressStepFunction"
  | eventBusRule => "EventBusRule"
  | eventBusTransform => "EventBusTransform"
  | when => "when"
  | map => "map"

def tag : ConstructKind → String
  | reflect => "Reflect"
  | when => "When"
  | map => "Map"
  | k => k.name

end ConstructKind

structure Selection where
  kind : ConstructKind
  /-- The indices of the reflected arguments. -/
  slots : List Nat
  /-- How many leading parameters of the reflected function the framework supplies. -/
  drop : Nat := 0
  deriving DecidableEq, Repr

namespace Selector

def selectReflect? (t : Tree) : Option Selection := do
  let callee ← t.callee?
  if callee.kind = .identifier ∧ callee.text = "reflect" ∧ t.callArguments.length = 1 then
    some ⟨.reflect, [0], 0⟩
  else none

def eventMethod? (name : String) : Option ConstructKind :=
  match name with
  | "when" => some .when
  | "map" => some .map
  | _ => none

def isEventSource (o : Oracle) (ty : Ty) : Bool :=
  o.componentKind? ty == some .eventBus || o.componentKind? ty == some .eventBusRule

/-- Whether an argument is written as a function or has call signatures. -/
def isFunctionTyped (o : Oracle) (t : Tree) : Bool :=
  t.kind == .arrowFunction || t.kind == .functionExpression ||
    match o.typeOf t with
    | some ty => !(o.signaturesOf ty).isEmpty
    | none => false

def selectEventMethod? (o : Oracle) (t : Tree) : Option Selection := do
  let callee ← t.callee?
  if callee.kind = .memberExpression then
    let kind ← eventMethod? (← callee.childByField? "property").text
    let receiver ← o.typeOf (← callee.childByField? "object")
    if isEventSource o receiver then
      let trailing ← t.callArguments.getLast?
      if isFunctionTyped o trailing then some ⟨kind, [t.callArguments.length - 1], 0⟩ else none
    else none
  else none

/-- The component that a construction builds, told by its class or else by the instance. -/
def component? (o : Oracle) (t : Tree) : Option ComponentKind := do
  let callee ← t.callee?
  match (o.typeOf callee).bind o.componentKind? with
  | some kind => some kind
  | none => (o.typeOf t).bind o.componentKind?

def componentSlot? (kind : ComponentKind) (argc : Nat) : Option Selection :=
  match kind with
  | .resolver => if argc = 1 then some ⟨.resolver, [0], 1⟩ else none
  | .stepFunction => if argc = 3 ∨ argc = 4 then some ⟨.stepFunction, [argc - 1], 0⟩ else none
  | .expressStepFunction =>
    if argc = 3 ∨ argc = 4 then some ⟨.expressStepFunction, [argc - 1], 0⟩ else none
  | .eventBusRule => if argc = 4 then some ⟨.eventBusRule, [3], 0⟩ else none
  | .eventBusTransform => if argc = 2 then some ⟨.eventBusTransform, [0], 0⟩ else none
  | .eventBus => none

def selectComponent? (o : Oracle) (t : Tree) : Option Selection := do
  componentSlot? (← component? o t) t.callArguments.length

end Selector

/-- The functions to reflect in an invocation. -/
def select? (o : Oracle) (t : Tree) : Option Selection :=
  match t.kind with
  | .callExpression =>
    match Selector.selectReflect? t with
    | some found => some found
    | none => Selector.selectEventMethod? o t
  | .newExpression => Selector.selectComponent? o t
  | _ => none

end Reify
