/-
Configuration of a transform: which paths are left alone, and the library of nodes that
transformed sources import.
-/
import Reify.Diagnostic
import Reify.Document.Schema
import Reify.Glob
import Reify.Node.Emit
import Reify.Path

namespace Reify

structure Config where
  /-- Glob patterns of the paths that are left alone. -/
  exclude : List String := []
  library : NodeLibrary := {}
  deriving DecidableEq, Repr

inductive ConfigError
  | invalidPattern (pattern : String) (cause : Glob.PatternError)
  /-- The import binding is no identifier. -/
  | invalidNamespace (binding : String)
  | emptyModule
  deriving DecidableEq, Repr

namespace ConfigError

def message : ConfigError → String
  | invalidPattern pattern _ => "invalid exclusion pattern `" ++ pattern ++ "`"
  | invalidNamespace binding => "IR namespace `" ++ binding ++ "` is not a valid identifier"
  | emptyModule => "IR module specifier must not be empty"

def diagnostic : ConfigError → Diagnostic
  | invalidPattern .. => ⟨"driver::invalid_pattern", none, []⟩
  | invalidNamespace _ => ⟨"driver::invalid_namespace", none, []⟩
  | emptyModule => ⟨"driver::empty_module", none, []⟩

end ConfigError

abbrev Exclusions := List (List Glob.Token)

def Exclusions.excludes (e : Exclusions) (p : Path) : Bool :=
  e.any fun tokens => Glob.accepts tokens p.text.toList

namespace Config

def opensIdentifier (c : Char) : Bool := c.isAlpha || c == '_' || c == '$'

def continuesIdentifier (c : Char) : Bool := c.isAlphanum || c == '_' || c == '$'

/-- Whether the text is an ASCII identifier. -/
def isIdentifier (text : String) : Bool :=
  match text.toList with
  | [] => false
  | c :: cs => opensIdentifier c && cs.all continuesIdentifier

def compilePatterns : List String → Except ConfigError Exclusions
  | [] => .ok []
  | pattern :: rest =>
    match Glob.compile pattern with
    | .error cause => .error (.invalidPattern pattern cause)
    | .ok tokens => do return tokens :: (← compilePatterns rest)

def validate (c : Config) : Except ConfigError Exclusions :=
  if !isIdentifier c.library.binding then .error (.invalidNamespace c.library.binding)
  else if c.library.specifier = "" then .error .emptyModule
  else compilePatterns c.exclude

/-! ## As a document -/

def libraryOfDocument? (surplus : Document.Surplus) (d : Document) : Option NodeLibrary := do
  let fs ← Document.Shape.fields surplus ["namespace", "module"] d
  some
    { binding := ← Document.field fs "namespace" .text ({} : NodeLibrary).binding
      specifier := ← Document.field fs "module" .text ({} : NodeLibrary).specifier }

def ofDocument? (surplus : Document.Surplus) (d : Document) : Option Config := do
  let fs ← Document.Shape.fields surplus ["exclude", "ir"] d
  some
    { exclude := ← Document.field fs "exclude" (.list .text) []
      library := ← Document.field fs "ir" (libraryOfDocument? surplus) {} }

end Config
end Reify
