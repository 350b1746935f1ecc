/-
Type oracles, and the marks by which library types announce what they are.

Lowering asks an oracle for types and depends on no checker.  Any question may go unanswered.
A resource handle carries a property `kind` whose type is the literal name of its sort; a
construct whose callbacks are reflected carries `componentKind`; a callable wrapper carries a
brand whose type is the function it wraps.
-/
import Reify.Tree.Basic
import Reify.Types.Basic

namespace Reify

structure Oracle where
  /-- The type of an expression. -/
  typeOf : Tree → Option Ty
  /-- The type of an instance property. -/
  property : Ty → String → Option Ty
  /-- The type of a static property of the class `ty`. -/
  static : Ty → String → Option Ty
  /-- The signature that an invocation resolves to. -/
  resolvedSignature : Tree → Option Signature
  /-- All call signatures of a type. -/
  signaturesOf : Ty → List Signature
  /-- A type as text. -/
  display : Ty → String := Ty.display

namespace Oracle

def noTypes : Oracle where
  typeOf _ := none
  property _ _ := none
  static _ _ := none
  resolvedSignature _ := none
  signaturesOf _ := []

end Oracle

/-- Sorts of externally managed resources a function may refer to. -/
inductive ReferenceKind
  | function | table | stepFunction | expressStepFunction | eventBus
  deriving DecidableEq, Repr

namespace ReferenceKind

def all : List ReferenceKind := [function, table, stepFunction, expressStepFunction, eventBus]

def tag : ReferenceKind → String
  | function => "Function"
  | table => "Table"
  | stepFunction => "StepFunction"
  | expressStepFunction => "ExpressStepFunction"
  | eventBus => "EventBus"

def ofTag? (tag : String) : Option ReferenceKind := all.find? fun k => k.tag == tag

theorem ofTag?_tag (k : ReferenceKind) : ofTag? k.tag = some k := by cases k <;> rfl

end ReferenceKind

/-- Constructs whose function arguments are reflected. -/
inductive ComponentKind
  | resolver | stepFunction | expressStepFunction | eventBus | eventBusRule | eventBusTransform
  deriving DecidableEq, Repr

namespace ComponentKind

def all : List ComponentKind :=
  [resolver, stepFunction, expressStepFunction, eventBus, eventBusRule, eventBusTransform]

def tag : ComponentKind → String
  | resolver => "Resolver"
  | stepFunction => "StepFunction"
  | expressStepFunction => "ExpressStepFunction"
  | eventBus => "EventBus"
  | eventBusRule => "EventBusRule"
  | eventBusTransform => "EventBusTransform"

def ofTag? (tag : String) : Option ComponentKind := all.find? fun k => k.tag == tag

theorem ofTag?_tag (k : ComponentKind) : ofTag? k.tag = some k := by cases k <;> rfl

end ComponentKind

namespace Oracle

/-- The property that names the sort of a resource. -/
def referenceMark : String := "kind"

/-- The property, static or of instances, that names the sort of a construct. -/
def componentMark : String := "componentKind"

/-- The property whose type is the function that a wrapper wraps. -/
def callableMark : String := "__callableBrand"

def referenceKind? (o : Oracle) (ty : Ty) : Option ReferenceKind :=
  (o.property ty referenceMark).bind Ty.literal? |>.bind ReferenceKind.ofTag?

/-- The type of the mark by which `ty` says that it is a construct, statics first. -/
def componentType? (o : Oracle) (ty : Ty) : Option Ty :=
  match o.static ty componentMark with
  | some mark => some mark
  | none => o.property ty componentMark

def componentKind? (o : Oracle) (ty : Ty) : Option ComponentKind :=
  (o.componentType? ty).bind Ty.literal? |>.bind ComponentKind.ofTag?

def callableBrand? (o : Oracle) (ty : Ty) : Option Ty := o.property ty callableMark

end Oracle
end Reify
