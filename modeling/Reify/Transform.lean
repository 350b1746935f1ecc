/-
Transforming source units.

A transform reflects every selected function of a source unit.  Syntax errors stop it; a
function that cannot be reflected does not, it becomes an error node in its place.
-/
import Reify.Config
import Reify.Rewrite.Splice
import Reify.SyntaxError

namespace Reify

/-- A source unit with syntax errors, or a grammar that could not run. -/
structure SyntaxFailure where
  path : Path
  errors : List SyntaxError

namespace SyntaxFailure

def message (e : SyntaxFailure) : String :=
  e.path.text ++ " has " ++ Nat.repr e.errors.length ++ " syntax error(s)"

def diagnostic (_ : SyntaxFailure) : Diagnostic :=
  ⟨"driver::syntax", some "fix the syntax errors before transforming", []⟩

end SyntaxFailure

structure TransformOutput where
  source : String
  /-- The rewritten slots in source order. -/
  rewrites : List Rewrite
  /-- Whether the path is excluded and the source was left alone. -/
  excluded : Bool

def TransformOutput.isModified (out : TransformOutput) : Bool := !out.rewrites.isEmpty

/-- What transforms source units: an oracle, a library and the excluded paths. -/
structure Transformer where
  oracle : Oracle
  library : NodeLibrary
  exclusions : Exclusions

namespace Transformer

def ofConfig (o : Oracle) (c : Config) : Except ConfigError Transformer := do
  return ⟨o, c.library, ← c.validate⟩

def transformTree (f : Transformer) (source : String) (t : Tree) : TransformOutput :=
  let rewrites := Rewrite.inSourceOrder (Rewrite.collect f.oracle t)
  ⟨Rewrite.splice f.library source rewrites, rewrites, false⟩

/-- Transforms the source unit at a path.  An excluded path is not even parsed. -/
def transform (f : Transformer) (grammar : Grammar) (path : Path) (source : String) :
    Except SyntaxFailure TransformOutput :=
  if f.exclusions.excludes path then .ok ⟨source, [], true⟩
  else
    match Parsed.ofPath grammar path source with
    | ⟨some t, []⟩ => .ok (f.transformTree source t)
    | ⟨_, errors⟩ => .error ⟨path, errors⟩

end Transformer
end Reify
