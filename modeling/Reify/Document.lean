/-
Structured documents: the common form of configuration files and of serialized nodes.

A record keeps its members in order and holds each key once.  Documents are values: how a text
writes one, and how deep a reader of texts lets them nest, is a matter of the format.
-/

namespace Reify

inductive Document
  | null
  | bool (value : Bool)
  | number (value : Int)
  | text (value : String)
  | list (items : List Document)
  | record (members : List (String × Document))
  /-- A scalar that no schema of the library asks for, such as a float. -/
  | scalar (literal : String)
  deriving Inhabited

end Reify
