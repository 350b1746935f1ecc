/-
What a diagnostic shows besides its message.
-/
import Reify.Span

namespace Reify

/-- The code of an error, advice if there is any, and the labelled places in the source. -/
structure Diagnostic where
  code : String
  help : Option String
  labels : List (String × Extent)
  deriving DecidableEq, Repr

end Reify
