/-
Projects.

A project is a directory with type declarations in `types.toml`, a configuration in
`refract.toml` if it has one, and sources below `src`.  What stops it is reported as a chain of
messages, from what was being done down to the cause.
-/
import Reify.Directory
import Reify.Toml
import Reify.Transform
import Reify.Types.Schema

namespace Reify

inductive Stop
  | unread (cause : ReadError)
  | unreadTypes (path : Path) (cause : ReadError)
  | badTypes (cause : DeclarationError)
  /-- The configuration file does not fit the schema. -/
  | malformedConfig
  | badConfig (cause : ConfigError)
  | badSource (cause : SyntaxFailure)

namespace Stop

/-- The messages of a stop, its cause last. -/
def chain : Stop → List String
  | unread cause => [cause.message]
  | unreadTypes path cause =>
    ["failed to read type declarations from " ++ path.text, cause.message]
  | badTypes .malformed => ["invalid type declarations"]
  | badTypes (.unknownType cause) => [cause.message]
  | malformedConfig => ["invalid transform configuration"]
  | badConfig (.invalidPattern pattern cause) =>
    [(ConfigError.invalidPattern pattern cause).message, cause.message]
  | badConfig cause => [cause.message]
  | badSource cause => [cause.message]

def syntaxErrors? : Stop → Option (List SyntaxError)
  | badSource cause => some cause.errors
  | _ => none

end Stop

/-- A stop with what was being done, outermost first. -/
structure Halt where
  doing : List String
  stop : Stop

namespace Halt

def chain (h : Halt) : List String := h.doing ++ h.stop.chain

def during {α : Type} (doing : List String) : Except Stop α → Except Halt α
  | .ok a => .ok a
  | .error stop => .error ⟨doing, stop⟩

end Halt

namespace Transformer

def transformRead (f : Transformer) (grammar : Grammar) (path : Path)
    (text : Except ReadError String) (reading transforming : List String) :
    Except Halt TransformOutput := do
  let source ← Halt.during reading (text.mapError .unread)
  Halt.during transforming ((f.transform grammar path source).mapError .badSource)

def transformFile (f : Transformer) (grammar : Grammar) (path : Path)
    (text : Except ReadError String) : Except Halt TransformOutput :=
  f.transformRead grammar path text
    ["Failed to read source file: " ++ path.text]
    ["Failed to transform source file: " ++ path.text]

end Transformer

/-! ## Files in TOML

A list in TOML may have more items than the structure it stands for has fields. -/

def Declared.ofToml (text : String) : Except DeclarationError Declared :=
  load .ignored (Document.ofToml? text)

def Config.ofToml? (text : String) : Option Config :=
  (Document.ofToml? text).bind (ofDocument? .ignored)

structure Project where
  root : Path
  /-- The directory at the root. -/
  directory : Entry
  types : Declared
  config : Config

namespace Project

def typesFile : Path := ⟨"types.toml"⟩

def configFile : Path := ⟨"refract.toml"⟩

def loadTypes (root : Path) (d : Entry) : Except Stop Declared := do
  let text ← (d.read root typesFile).mapError (.unreadTypes (root.join typesFile))
  (Declared.ofToml text).mapError .badTypes

/-- The configuration in the directory, the default one if there is no file of it. -/
def loadConfig (root : Path) (d : Entry) : Except Stop Config :=
  match d.read root configFile with
  | .error _ => .ok {}
  | .ok text =>
    match Config.ofToml? text with
    | some config => .ok config
    | none => .error .malformedConfig

def load (root : Path) (d : Entry) : Except Halt Project := do
  let types ← Halt.during ["Failed to load types for " ++ root.text] (loadTypes root d)
  let config ←
    Halt.during ["Failed to parse transform config: " ++ (root.join configFile).text]
      (loadConfig root d)
  return ⟨root, d, types, config⟩

def sources (p : Project) : Except Halt (List Path) :=
  Halt.during [] ((p.directory.list "src" "ts").mapError .unread)

def transformer (p : Project) : Except Halt Transformer :=
  Halt.during [] ((Transformer.ofConfig p.types.oracle p.config).mapError .badConfig)

def transform (p : Project) (grammar : Grammar) (path : Path) :
    Except Halt TransformOutput := do
  (← p.transformer).transformRead grammar path (p.directory.read p.root path) [] []

/-- Transforms all sources in order, up to the first that cannot be transformed. -/
def transformAll (p : Project) (grammar : Grammar) :
    Except Halt (List (Path × TransformOutput)) := do
  let f ← p.transformer
  (← p.sources).mapM fun path => do
    return (path, ← f.transformRead grammar path (p.directory.read p.root path) []
      ["Failed to transform " ++ path.text])

end Project
end Reify
