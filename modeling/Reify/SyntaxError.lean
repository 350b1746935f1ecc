/-
Syntax errors.

`collect` searches a concrete tree for the places where the grammar recovered.  An error node
is text that cannot stand where it stands; a missing node is a token that should be there.
The search stops at either, so each error region is reported once, and it enters only nodes
that are marked as holding one.

A missing closing bracket is reported together with an opening one: the first such bracket in
the text of the node that lacks the closing one.
-/
import Reify.Concrete
import Reify.Diagnostic
import Reify.Text.Blank

namespace Reify

inductive SyntaxError
  /-- Text the grammar cannot place in the construct `context`. -/
  | unexpected (file text context : String) (span : Extent)
  /-- A token the grammar requires is absent. -/
  | missing (file expected : String) (span : Extent)
  /-- A bracket opened at `opening` should have been closed by `stop`. -/
  | unclosed (file : String) (delimiter : Char) (opening stop : Extent)
  | grammarUnavailable (reason : String)
  deriving DecidableEq, Repr

namespace SyntaxError

def message : SyntaxError → String
  | unexpected _ text context _ => "unexpected `" ++ text ++ "` in " ++ context
  | missing _ expected _ => "missing `" ++ expected ++ "`"
  | unclosed _ delimiter _ _ => "unclosed `" ++ String.singleton delimiter ++ "`"
  | grammarUnavailable reason => "TypeScript grammar unavailable: " ++ reason

def file? : SyntaxError → Option String
  | unexpected file .. | missing file .. | unclosed file .. => some file
  | grammarUnavailable _ => none

/-- Where the error is, if it is anywhere. -/
def span? : SyntaxError → Option Extent
  | unexpected _ _ _ span | missing _ _ span | unclosed _ _ _ span => some span
  | grammarUnavailable _ => none

def expectedHere (expected : String) : String := "expected `" ++ expected ++ "` here"

def insertIt (expected : String) : String := "insert `" ++ expected ++ "`"

def diagnostic : SyntaxError → Diagnostic
  | unexpected _ _ _ span => ⟨"parser::unexpected", none, [("not valid here", span)]⟩
  | missing _ expected span =>
    ⟨"parser::missing", some (insertIt expected), [(expectedHere expected, span)]⟩
  | unclosed _ _ opening stop =>
    ⟨"parser::unclosed", none, [("opened here", opening), ("closing delimiter expected", stop)]⟩
  | grammarUnavailable _ => ⟨"parser::grammar", none, []⟩

/-- A labelled range of the report form; the main one is primary. -/
structure Label where
  primary : Bool
  start : Nat
  stop : Nat
  message : String
  deriving DecidableEq, Repr

namespace Label

def ofExtent (primary : Bool) (e : Extent) (message : String) : Label :=
  ⟨primary, e.offset, e.offset + e.length, message⟩

end Label

/-- An error as a message with labelled ranges and notes. -/
structure Report where
  message : String
  labels : List Label
  notes : List String
  deriving DecidableEq, Repr

def report (e : SyntaxError) : Report :=
  match e with
  | unexpected _ _ _ span => ⟨e.message, [.ofExtent true span "not valid here"], []⟩
  | missing _ expected span =>
    ⟨e.message, [.ofExtent true span (expectedHere expected)], [insertIt expected]⟩
  | unclosed _ _ opening stop =>
    ⟨e.message,
      [.ofExtent true stop "closing delimiter expected", .ofExtent false opening "opened here"],
      []⟩
  | grammarUnavailable _ => ⟨e.message, [], []⟩

/-! ## The search -/

def openingFor? (closing : String) : Option Char :=
  match closing with
  | ")" => some '('
  | "\x7d" => some '\x7b'
  | "]" => some '['
  | _ => none

def describe (name : String) : String :=
  match name with
  | "program" => "source unit"
  | "arguments" => "argument list"
  | "formal_parameters" => "parameter list"
  | "statement_block" => "block"
  | "object" => "object literal"
  | "array" => "array literal"
  | "template_string" => "template literal"
  | name => Tree.Kind.spaced name

def offsetOf? (c : Char) : List Char → Option Nat
  | [] => none
  | d :: ds => if d = c then some 0 else (offsetOf? c ds).map (d.utf8Size + ·)

/-- The error at an error node under `parent`. -/
def ofError (file : String) (source : List Char) (parent : Option Concrete.Info)
    (i : Concrete.Info) : SyntaxError :=
  let text := (Text.slice? source i.start i.stop).getD []
  let context :=
    match parent with
    | some p => describe p.name
    | none => "source unit"
  unexpected file (String.ofList (Text.trim (Text.firstLine text))) context
    ⟨i.start, i.stop - i.start⟩

/-- The bracket in `parent` that a missing token would close, with its offset. -/
def opening? (source : List Char) (parent : Option Concrete.Info) (expected : String) :
    Option (Char × Nat) := do
  let delimiter ← openingFor? expected
  let p ← parent
  let text ← Text.slice? source p.start p.stop
  let offset ← offsetOf? delimiter text
  some (delimiter, p.start + offset)

def ofMissing (file : String) (source : List Char) (parent : Option Concrete.Info)
    (i : Concrete.Info) : SyntaxError :=
  match opening? source parent i.name with
  | some (delimiter, offset) => unclosed file delimiter ⟨offset, 1⟩ ⟨i.start, 0⟩
  | none => missing file i.name ⟨i.start, 0⟩

mutual

/-- The errors in a tree whose parent is `parent`. -/
def collect (file : String) (source : List Char) (parent : Option Concrete.Info) :
    Concrete → List SyntaxError
  | .node i children =>
    if i.error then [ofError file source parent i]
    else if i.missing then [ofMissing file source parent i]
    else collectIn file source i children

def collectIn (file : String) (source : List Char) (parent : Concrete.Info) :
    List Concrete → List SyntaxError
  | [] => []
  | .node i children :: rest =>
    (if i.hasError || i.missing then collect file source (some parent) (.node i children)
      else []) ++ collectIn file source parent rest

end

theorem collectIn_eq (file : String) (source : List Char) (parent : Concrete.Info)
    (cs : List Concrete) :
    collectIn file source parent cs =
      (cs.filter fun c => c.info.hasError || c.info.missing).flatMap
        (collect file source (some parent)) := by
  induction cs with
  | nil => rfl
  | cons c cs ih =>
    obtain ⟨info, children⟩ := c
    rw [collectIn, ih, List.filter_cons, Concrete.info]
    split <;> rfl

end SyntaxError

/-- A source unit after the grammar ran: its tree, unless the grammar could not run, and its
syntax errors in source order. -/
structure Parsed where
  tree : Option Tree
  errors : List SyntaxError

namespace Parsed

def anonymous : String := "<input>"

def isClean (p : Parsed) : Bool := p.tree.isSome && p.errors.isEmpty

def ofConcrete (file source : String) (c : Concrete) : Parsed :=
  { tree := some (c.toTree source)
    errors := if c.info.hasError then SyntaxError.collect file source.toList none c else [] }

def ofGrammar (file source : String) : Except String Concrete → Parsed
  | .ok c => ofConcrete file source c
  | .error reason => ⟨none, [.grammarUnavailable reason]⟩

def ofSource (grammar : Grammar) (source : String) : Parsed :=
  ofGrammar anonymous source (grammar .plain source)

/-- Reads a source unit in the dialect of its path, naming errors after the path. -/
def ofPath (grammar : Grammar) (path : Path) (source : String) : Parsed :=
  ofGrammar path.text source (grammar (.ofPath path) source)

end Parsed
end Reify
