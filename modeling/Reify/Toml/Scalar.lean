/-
Scalars of TOML other than strings.

A scalar is a run of characters that `scalar?` classifies: a boolean, an integer, a float, or a
date or time.
-/
import Reify.Toml.DateTime

namespace Reify
namespace Toml

def scalar? (cs : List Char) : Option Document :=
  if cs = ['t', 'r', 'u', 'e'] then some (.bool true)
  else if cs = ['f', 'a', 'l', 's', 'e'] then some (.bool false)
  else
    match integer? cs with
    | some n => some (.number n)
    | none =>
      match dateTime? cs with
      | some d => some d.toDocument
      | none => if isFloat cs then some (.scalar (String.ofList cs)) else none

def isScalarChar (c : Char) : Bool :=
  c.isAlphanum || c == '_' || c == '+' || c == '-' || c == '.' || c == ':'

/-- The run of characters that a scalar at the start of `cs` takes.  A date goes on past a
single space if a time follows. -/
def scalarText (cs : List Char) : List Char :=
  let head := cs.takeWhile isScalarChar
  match cs.drop head.length with
  | ' ' :: rest =>
    let more := rest.takeWhile isScalarChar
    if (whole? date? head).isSome && (timeOfDate? more).isSome then head ++ ' ' :: more else head
  | _ => head

end Toml
end Reify
