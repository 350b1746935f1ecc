/-
TOML, version 1.0.

A text is a row of lines: a table header, a key and its value, or neither.  The lines up to
the first header belong to the root table, and the lines after a header to its table.
-/
import Reify.Toml.Table

namespace Reify
namespace Toml

inductive Line
  | blank
  | header (key : List String)
  | arrayHeader (key : List String)
  | entry (key : List String) (value : Document)

/-- What one line holds, comment and line break left aside. -/
def line? : Reader Line := fun cs =>
  match skipSpaces cs with
  | '[' :: '[' :: cs => do
    match ← key? cs with
    | (key, ']' :: ']' :: rest) => some (.arrayHeader key, rest)
    | _ => none
  | '[' :: cs => do
    match ← key? cs with
    | (key, ']' :: rest) => some (.header key, rest)
    | _ => none
  | [] => some (.blank, [])
  | '#' :: cs => some (.blank, '#' :: cs)
  | '\n' :: cs => some (.blank, '\n' :: cs)
  | '\r' :: cs => some (.blank, '\r' :: cs)
  | cs => do
    let ((key, value), rest) ← assignment? (value? 79) cs
    some (.entry key value, rest)

/-- At most `n` lines up to the end of the text. -/
def lines? : Nat → List Char → Option (List Line)
  | 0, _ => none
  | n + 1, cs => do
    let (line, cs) ← line? cs
    match skipComment (skipSpaces cs) with
    | [] => some [line]
    | cs => do some (line :: (← lines? n (← afterNewline? cs)))

/-- A table header, or none for the root, with the entries below it. -/
structure Section where
  header : Option Line
  entries : List (List String × Document)

/-- The lines as sections; `entries` are those of the lines before them. -/
def sections (header : Option Line) (entries : List (List String × Document)) :
    List Line → List Section
  | [] => [⟨header, entries⟩]
  | .blank :: lines => sections header entries lines
  | .entry key value :: lines => sections header (entries ++ [(key, value)]) lines
  | line :: lines => ⟨header, entries⟩ :: sections (some line) [] lines

def Section.add (root : Table) (s : Section) : Option Table :=
  match s.header with
  | some (.header key) => root.state key s.entries
  | some (.arrayHeader key) => root.append key s.entries
  | _ => root.assignAll s.entries

def skipMark : List Char → List Char
  | '\uFEFF' :: cs => cs
  | cs => cs

end Toml

def Document.ofToml? (text : String) : Option Document := do
  let cs := Toml.skipMark text.toList
  let lines ← Toml.lines? (cs.length + 1) cs
  let root ← (Toml.sections none [] lines).foldlM Toml.Section.add Toml.Table.empty
  some root.toDocument

end Reify
