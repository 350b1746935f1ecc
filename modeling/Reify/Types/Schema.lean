/-
Type declarations as documents.

A declaration has `bindings` and `types`; a type has `properties`, `statics`, `signatures`,
`returns` and `element`; a signature has `params`.  A reference is a name, or a record with the
`literal` it stands for.  Names are checked once the whole declaration has been read.
-/
import Reify.Document.Schema
import Reify.Types.Declared

namespace Reify

/-- Why a document declares no types. -/
inductive DeclarationError
  | malformed
  | unknownType (cause : UnknownType)
  deriving DecidableEq, Repr

def TypeRef.ofDocument? : Document → Option TypeRef
  | .text value => some (.name value)
  | .record members => do some (.literal (← Document.Shape.text (← members.lookup "literal")))
  | _ => none

namespace TypeDef

def parametersOfDocument? (surplus : Document.Surplus) (d : Document) :
    Option (List String) := do
  let fs ← Document.Shape.fields surplus ["params"] d
  Document.field fs "params" (.list .text) []

def ofDocument? (surplus : Document.Surplus) (d : Document) : Option TypeDef := do
  let fs ← Document.Shape.fields surplus
    ["properties", "statics", "signatures", "returns", "element"] d
  some
    { properties := ← Document.field fs "properties" (.map TypeRef.ofDocument?) []
      statics := ← Document.field fs "statics" (.map TypeRef.ofDocument?) []
      signatures := ← Document.field fs "signatures" (.list (parametersOfDocument? surplus)) []
      returns := ← Document.field fs "returns" (.optional TypeRef.ofDocument?) none
      element := ← Document.field fs "element" (.optional TypeRef.ofDocument?) none }

end TypeDef

namespace Declared

def ofDocument? (surplus : Document.Surplus) (d : Document) : Option Declared := do
  let fs ← Document.Shape.fields surplus ["bindings", "types"] d
  some
    { bindings := ← Document.field fs "bindings" (.map TypeRef.ofDocument?) []
      types := ← Document.field fs "types" (.map (TypeDef.ofDocument? surplus)) [] }

/-- The declaration a document makes, if it names no unknown type.  There is no document where
a text could not be read as one. -/
def load (surplus : Document.Surplus) (d : Option Document) :
    Except DeclarationError Declared :=
  match d.bind (ofDocument? surplus) with
  | none => .error .malformed
  | some declared =>
    match declared.validate with
    | .ok () => .ok declared
    | .error cause => .error (.unknownType cause)

end Declared
end Reify
