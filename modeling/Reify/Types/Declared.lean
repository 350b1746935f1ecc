/-
Types by declaration.

A declaration binds free identifiers to types and describes types by their properties,
statics, call signatures, result and element type.  The signatures of a class are its
constructor signatures too.  `validate` checks that every type named is declared or primitive;
`oracle` answers type questions from what is declared.
-/
import Reify.Text.Cooked
import Reify.Types.Oracle

namespace Reify

/-- A type named or spelled out inside a declaration. -/
inductive TypeRef
  | name (name : String)
  | literal (value : String)
  deriving DecidableEq, Repr

def TypeRef.toTy : TypeRef → Ty
  | .name n => .named n
  | .literal value => .literal value

/-- One declared type.  Properties and statics are in the order of declaration. -/
structure TypeDef where
  properties : List (String × TypeRef) := []
  statics : List (String × TypeRef) := []
  /-- For each call signature its parameters, three dots before a rest parameter. -/
  signatures : List (List String) := []
  returns : Option TypeRef := none
  element : Option TypeRef := none
  deriving DecidableEq, Repr

structure Declared where
  bindings : List (String × TypeRef) := []
  types : List (String × TypeDef) := []
  deriving DecidableEq, Repr

/-- A type that a declaration names and nothing declares. -/
structure UnknownType where
  name : String
  /-- What names it. -/
  referencedBy : String
  deriving DecidableEq, Repr

def UnknownType.message (e : UnknownType) : String :=
  "unknown type `" ++ e.name ++ "` referenced by " ++ e.referencedBy

namespace Parameter

/-- A parameter as declared, three dots marking a rest parameter. -/
def ofDeclared (text : String) : Parameter :=
  match text.toList with
  | '.' :: '.' :: '.' :: name => ⟨String.ofList name, true⟩
  | _ => ⟨text, false⟩

end Parameter

namespace TypeDef

def callSignatures (d : TypeDef) : List Signature :=
  d.signatures.map fun names => ⟨names.map Parameter.ofDeclared⟩

end TypeDef

namespace Declared

/-- The types a declaration may name without declaring them. -/
def primitives : List String :=
  ["string", "number", "boolean", "any", "unknown", "object", "void", "undefined", "null", "never"]

def declares (d : Declared) (name : String) : Bool := (d.types.lookup name).isSome

/-! ## Validation -/

/-- The type references of a type with what they belong to, in the order they are checked. -/
def definitionRefs (typeName : String) (t : TypeDef) : List (String × TypeRef) :=
  t.properties.map (fun (name, r) => ("property `" ++ typeName ++ "." ++ name ++ "`", r)) ++
  t.statics.map (fun (name, r) => ("static `" ++ typeName ++ "." ++ name ++ "`", r)) ++
  t.returns.toList.map (fun r => ("return type of `" ++ typeName ++ "`", r)) ++
  t.element.toList.map (fun r => ("element type of `" ++ typeName ++ "`", r))

/-- All type references of a declaration, in the order they are checked. -/
def refs (d : Declared) : List (String × TypeRef) :=
  d.bindings.map (fun (name, r) => ("binding `" ++ name ++ "`", r)) ++
  d.types.flatMap fun (name, t) => definitionRefs name t

def isDangling (d : Declared) : TypeRef → Bool
  | .name name => !d.declares name && !primitives.contains name
  | .literal _ => false

def firstDangling? (d : Declared) : List (String × TypeRef) → Option UnknownType
  | [] => none
  | (owner, .name name) :: rest =>
    if d.isDangling (.name name) then some ⟨name, owner⟩ else firstDangling? d rest
  | (_, .literal _) :: rest => firstDangling? d rest

theorem firstDangling?_eq_none_iff {d : Declared} {refs : List (String × TypeRef)} :
    d.firstDangling? refs = none ↔ ∀ entry ∈ refs, d.isDangling entry.2 = false := by
  induction refs with
  | nil => simp [firstDangling?]
  | cons entry rest ih =>
    obtain ⟨owner, r⟩ := entry
    cases r with
    | name name =>
      rw [firstDangling?]
      split <;> simp_all
    | literal value =>
      rw [firstDangling?, ih]
      simp [isDangling]

def validate (d : Declared) : Except UnknownType Unit :=
  match d.firstDangling? d.refs with
  | some e => .error e
  | none => .ok ()

/-! ## Answers -/

def definition? (d : Declared) : Ty → Option TypeDef
  | .named name => d.types.lookup name
  | .literal _ => none

def property (d : Declared) (ty : Ty) (name : String) : Option Ty := do
  (← (← d.definition? ty).properties.lookup name).toTy

def static (d : Declared) (ty : Ty) (name : String) : Option Ty := do
  (← (← d.definition? ty).statics.lookup name).toTy

def element (d : Declared) (ty : Ty) : Option Ty := do (← (← d.definition? ty).element).toTy

def returns (d : Declared) (ty : Ty) : Option Ty := do (← (← d.definition? ty).returns).toTy

def signaturesOf (d : Declared) (ty : Ty) : List Signature :=
  match d.definition? ty with
  | some t => t.callSignatures
  | none => []

/-- The type of a free identifier: what it is bound to, else the class of its name. -/
def nameType (d : Declared) (name : String) : Option Ty :=
  match d.bindings.lookup name with
  | some r => some r.toTy
  | none => if d.declares name then some (.named name) else none

/-- The type of `object[index]`: a property if the index is a string literal that names one,
else the element type. -/
def elementAt (d : Declared) (object : Ty) (index : Tree) : Option Ty :=
  if index.kind = .stringLiteral then
    match d.property object (Text.stringValue index.text) with
    | some ty => some ty
    | none => d.element object
  else d.element object

mutual

def typeOf (d : Declared) : Tree → Option Ty
  | .node info children =>
    let t := Tree.node info children
    match info.kind with
    | .identifier | .shorthandPropertyIdentifier => d.nameType info.text
    | .memberExpression => do
      let object ← (typesIn d (Tree.inField "object") children).head?.join
      d.property object (← t.childByField? "property").text
    | .subscriptExpression => do
      let object ← (typesIn d (Tree.inField "object") children).head?.join
      d.elementAt object (← t.childByField? "index")
    | .callExpression => do d.returns (← (typesIn d (Tree.inField "function") children).head?.join)
    | .newExpression => (typesIn d (Tree.inField "constructor") children).head?.join
    | .parenthesizedExpression | .asExpression | .satisfiesExpression | .nonNullExpression =>
      (typesIn d Tree.isOperand children).head?.join
    | .typeAssertion => (typesIn d Tree.isOperand children).getLast?.join
    | .stringLiteral => some (.literal (Text.stringValue info.text))
    | .templateString => some (.named "string")
    | .numberLiteral => some (.named "number")
    | .trueLiteral | .falseLiteral => some (.named "boolean")
    | _ => none

def typesIn (d : Declared) (p : Tree → Bool) : List Tree → List (Option Ty)
  | [] => []
  | t :: ts => if p t then typeOf d t :: typesIn d p ts else typesIn d p ts

end

theorem typesIn_eq (d : Declared) (p : Tree → Bool) (ts : List Tree) :
    d.typesIn p ts = (ts.filter p).map d.typeOf := by
  induction ts with
  | nil => rfl
  | cons t ts ih =>
    rw [typesIn, ih, List.filter_cons]
    split <;> rfl

/-- The signature of an invocation is the overload of its callee that fits its arguments. -/
def resolvedSignature (d : Declared) (invocation : Tree) : Option Signature := do
  let callee ← d.typeOf (← invocation.callee?)
  Signature.selectOverload? (d.signaturesOf callee) invocation.callArguments.length

def oracle (d : Declared) : Oracle where
  typeOf := d.typeOf
  property := d.property
  static := d.static
  resolvedSignature := d.resolvedSignature
  signaturesOf := d.signaturesOf

end Declared
end Reify
