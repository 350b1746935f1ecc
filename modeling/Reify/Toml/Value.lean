/-
Strings, keys and values of TOML.

Every reader gives what it read and the rest of the text.  Values nest at most 79 deep.
-/
import Reify.Toml.Scalar

namespace Reify
namespace Toml

/-! ## Blanks -/

def isSpace (c : Char) : Bool := c == ' ' || c == '\t'

def skipSpaces (cs : List Char) : List Char := cs.dropWhile isSpace

/-- Whether a character may stand in a comment, or anywhere in a string: no control character
but the tab. -/
def isPlain (c : Char) : Bool := c == '\t' || (0x20 ≤ c.toNat && c.toNat != 0x7F)

def afterNewline? : List Char → Option (List Char)
  | '\n' :: cs => some cs
  | '\r' :: '\n' :: cs => some cs
  | _ => none

def skipComment : List Char → List Char
  | '#' :: cs => cs.dropWhile isPlain
  | cs => cs

/-- The text after `n` or fewer stretches of spaces, each with a comment and a line break. -/
def skipLines : Nat → List Char → List Char
  | 0, cs => cs
  | n + 1, cs =>
    let cs := skipSpaces cs
    match afterNewline? (skipComment cs) with
    | some rest => skipLines n rest
    | none => cs

/-- The text after spaces, line breaks and comments that end in line breaks. -/
def skipBlank (cs : List Char) : List Char := skipLines (cs.length + 1) cs

/-! ## Strings -/

/-- The character with a code point, unless it is a surrogate or too large. -/
def scalarValue? (n : Nat) : Option Char :=
  if h : n.isValidChar then some (Char.ofNatAux n h) else none

/-- The character escaped by a backslash and then `cs`, and how many characters of `cs` write
it. -/
def escaped? : List Char → Option (Char × Nat)
  | [] => none
  | c :: cs =>
    match c with
    | 'b' => some ('\x08', 1)
    | 't' => some ('\t', 1)
    | 'n' => some ('\n', 1)
    | 'f' => some ('\x0C', 1)
    | 'r' => some ('\r', 1)
    | '"' => some ('"', 1)
    | '\\' => some ('\\', 1)
    | 'u' => do some (← scalarValue? (← Text.Cooked.fixedHex? 4 cs), 5)
    | 'U' => do some (← scalarValue? (← Text.Cooked.fixedHex? 8 cs), 9)
    | _ => none

/-- The rest of a basic string, after `skip` more characters. -/
def basicFrom (skip : Nat) : Reader (List Char)
  | [] => none
  | c :: cs =>
    match skip with
    | skip + 1 => basicFrom skip cs
    | 0 =>
      match c with
      | '"' => some ([], cs)
      | '\\' => do
        let (d, used) ← escaped? cs
        let (ds, rest) ← basicFrom used cs
        some (d :: ds, rest)
      | c => do
        if isPlain c then
          let (ds, rest) ← basicFrom 0 cs
          some (c :: ds, rest)
        else none

def literalFrom : Reader (List Char)
  | [] => none
  | '\'' :: cs => some ([], cs)
  | c :: cs => do
    if isPlain c then
      let (ds, rest) ← literalFrom cs
      some (c :: ds, rest)
    else none

/-- How many characters the spaces and line breaks at the start take up. -/
def blankLength : List Char → Nat
  | ' ' :: cs => blankLength cs + 1
  | '\t' :: cs => blankLength cs + 1
  | '\n' :: cs => blankLength cs + 1
  | '\r' :: '\n' :: cs => blankLength cs + 2
  | _ => 0

/-- How many of the characters after a backslash belong to a line continuation: spaces, a line
break, and then all spaces and line breaks. -/
def continuation? (cs : List Char) : Option Nat :=
  match afterNewline? (skipSpaces cs) with
  | some _ => some (blankLength cs)
  | none => none

/-- The quotes at the end of a multi-line string: of a run of `n` quotes, how many belong to
the text if the run ends the string. -/
def closing? (n : Nat) : Option Nat := if n < 3 then none else some (min (n - 3) 2)

def multiBasicFrom (skip : Nat) : Reader (List Char)
  | [] => none
  | c :: cs =>
    match skip with
    | skip + 1 => multiBasicFrom skip cs
    | 0 =>
      let on := fun (d : List Char) (used : Nat) => do
        let (ds, rest) ← multiBasicFrom used cs
        some (d ++ ds, rest)
      match c with
      | '"' =>
        let more := (cs.takeWhile (· == '"')).length
        match closing? (more + 1) with
        | some kept => some (List.replicate kept '"', cs.drop (kept + 2))
        | none => on (List.replicate (more + 1) '"') more
      | '\\' =>
        match continuation? cs with
        | some used => on [] used
        | none => do
          let (d, used) ← escaped? cs
          on [d] used
      | '\n' => on ['\n'] 0
      | '\r' => if cs.head? == some '\n' then on [] 0 else none
      | c => if isPlain c then on [c] 0 else none

def multiLiteralFrom (skip : Nat) : Reader (List Char)
  | [] => none
  | c :: cs =>
    match skip with
    | skip + 1 => multiLiteralFrom skip cs
    | 0 =>
      let on := fun (d : List Char) (used : Nat) => do
        let (ds, rest) ← multiLiteralFrom used cs
        some (d ++ ds, rest)
      match c with
      | '\'' =>
        let more := (cs.takeWhile (· == '\'')).length
        match closing? (more + 1) with
        | some kept => some (List.replicate kept '\'', cs.drop (kept + 2))
        | none => on (List.replicate (more + 1) '\'') more
      | '\n' => on ['\n'] 0
      | '\r' => if cs.head? == some '\n' then on [] 0 else none
      | c => if isPlain c then on [c] 0 else none

/-- The text after the line break that may open a multi-line string. -/
def openLine (cs : List Char) : List Char := (afterNewline? cs).getD cs

/-- A string of any of the four forms. -/
def string? : Reader String
  | '"' :: '"' :: '"' :: cs => (multiBasicFrom 0 (openLine cs)).map fun (s, r) => (.ofList s, r)
  | '"' :: cs => (basicFrom 0 cs).map fun (s, r) => (.ofList s, r)
  | '\'' :: '\'' :: '\'' :: cs =>
    (multiLiteralFrom 0 (openLine cs)).map fun (s, r) => (.ofList s, r)
  | '\'' :: cs => (literalFrom cs).map fun (s, r) => (.ofList s, r)
  | _ => none

/-! ## Keys -/

def isBareChar (c : Char) : Bool := c.isAlphanum || c == '_' || c == '-'

def simpleKey? : Reader String
  | '"' :: cs => (basicFrom 0 cs).map fun (s, r) => (.ofList s, r)
  | '\'' :: cs => (literalFrom cs).map fun (s, r) => (.ofList s, r)
  | cs =>
    let bare := cs.takeWhile isBareChar
    if bare.isEmpty then none else some (.ofList bare, cs.drop bare.length)

/-- A key of at most `n` parts joined by dots, with the spaces around it. -/
def keyParts? : Nat → Reader (List String)
  | 0, _ => none
  | n + 1, cs => do
    let (part, cs) ← simpleKey? (skipSpaces cs)
    match skipSpaces cs with
    | '.' :: cs => do
      let (parts, cs) ← keyParts? n cs
      some (part :: parts, cs)
    | cs => some ([part], cs)

/-- A key; it has fewer than 80 parts. -/
def key? : Reader (List String) := keyParts? 79

/-! ## Values -/

/-- The members of an inline table under construction, with what each key holds: a value, or
a table that dotted keys opened. -/
inductive Inline
  | value (d : Document)
  | dotted (members : List (String × Inline))

def replaceAt {α : Type} (key : String) (value : α) : List (String × α) → List (String × α)
  | [] => []
  | (k, v) :: rest => if k = key then (k, value) :: rest else (k, v) :: replaceAt key value rest

/-- Adds the value of a dotted key, which must be new. -/
def Inline.insert (value : Document) : List String → List (String × Inline) →
    Option (List (String × Inline))
  | [], _ => none
  | [key], members =>
    match members.lookup key with
    | some _ => none
    | none => some (members ++ [(key, .value value)])
  | key :: path, members =>
    match members.lookup key with
    | none => do some (members ++ [(key, .dotted (← Inline.insert value path []))])
    | some (.dotted below) => do
      some (replaceAt key (.dotted (← Inline.insert value path below)) members)
    | some (.value _) => none

mutual

def Inline.toDocument : Inline → Document
  | .value d => d
  | .dotted members => .record (Inline.toMembers members)

def Inline.toMembers : List (String × Inline) → List (String × Document)
  | [] => []
  | (key, item) :: rest => (key, item.toDocument) :: Inline.toMembers rest

end

/-- The members of an inline table, all in a row. -/
def inlineTable (entries : List (List String × Document)) : Option Document := do
  let members ← entries.foldlM (fun members (key, value) => Inline.insert value key members) []
  some (.record (Inline.toMembers members))

/-- At most `n` items of an array up to its closing bracket. -/
def arrayItems (value? : Reader Document) : Nat → Reader (List Document)
  | 0, _ => none
  | n + 1, cs =>
    match skipBlank cs with
    | ']' :: rest => some ([], rest)
    | cs => do
      let (item, cs) ← value? cs
      match skipBlank cs with
      | ',' :: cs => do
        let (items, rest) ← arrayItems value? n cs
        some (item :: items, rest)
      | ']' :: rest => some ([item], rest)
      | _ => none

def assignment? (value? : Reader Document) : Reader (List String × Document) := fun cs => do
  let (key, cs) ← key? cs
  match cs with
  | '=' :: cs => do
    let (value, cs) ← value? (skipSpaces cs)
    some ((key, value), cs)
  | _ => none

/-- At most `n` entries of an inline table up to its closing brace. -/
def inlineEntries (value? : Reader Document) : Nat → Reader (List (List String × Document))
  | 0, _ => none
  | n + 1, cs => do
    let (entry, cs) ← assignment? value? cs
    match skipSpaces cs with
    | ',' :: cs => do
      let (entries, rest) ← inlineEntries value? n cs
      some (entry :: entries, rest)
    | '\x7d' :: rest => some ([entry], rest)
    | _ => none

/-- A value in which arrays and inline tables nest at most `depth` deep. -/
def value? (depth : Nat) : Reader Document := fun cs =>
  match cs with
  | '"' :: _ | '\'' :: _ => (string? cs).map fun (s, r) => (.text s, r)
  | '[' :: cs =>
    match depth with
    | 0 => none
    | depth + 1 => (arrayItems (value? depth) (cs.length + 1) cs).map fun (ds, r) => (.list ds, r)
  | '\x7b' :: cs =>
    match depth with
    | 0 => none
    | depth + 1 =>
      match skipSpaces cs with
      | '\x7d' :: rest => some (.record [], rest)
      | cs => do
        let (entries, rest) ← inlineEntries (value? depth) (cs.length + 1) cs
        some (← inlineTable entries, rest)
  | cs => do
    let text := scalarText cs
    some (← scalar? text, cs.drop text.length)

end Toml
end Reify
