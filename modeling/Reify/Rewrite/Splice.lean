/-
Splicing construction code into a source unit.

Everything outside a rewritten slot is kept as it is, but for the import of the library, which
goes in front, or behind a first line that begins with `#!`.
-/
import Reify.Node.Emit
import Reify.Rewrite.Walk

namespace Reify
namespace Rewrite

/-- The source from offset `cursor` on, with construction code in place of the slots. -/
def spliceFrom (l : NodeLibrary) (source : List Char) (cursor : Nat) :
    List Rewrite → List Char
  | [] => (Text.dropBytes? cursor source).getD []
  | r :: rs =>
    (Text.slice? source cursor r.span.start.toNat).getD [] ++
      r.node.emitChars l.binding.toList ++ spliceFrom l source r.span.stop.toNat rs

/-- The text with a line in front, or behind its first line if that begins with `#!`. -/
def insertLine (line : List Char) (text : List Char) : List Char :=
  match text with
  | '#' :: '!' :: _ =>
    match text.dropWhile (· ≠ '\n') with
    | _ :: rest => text.takeWhile (· ≠ '\n') ++ '\n' :: (line ++ '\n' :: rest)
    | [] => text ++ line ++ ['\n']
  | text => line ++ '\n' :: text

/-- The source with the rewrites made and the library imported, if there are any. -/
def splice (l : NodeLibrary) (source : String) (rs : List Rewrite) : String :=
  if rs.isEmpty then source
  else String.ofList (insertLine l.importLine.toList (spliceFrom l source.toList 0 rs))

end Rewrite
end Reify
