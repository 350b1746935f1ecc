/-
The value of string and template literal text.

Text is read element by element.  An element is a line break, an escape or a single
character; `element` says which text it stands for and how many characters after its first
belong to it.  `cook` joins the values of the elements.

A malformed `\x` or `\u` escape keeps its escaped character.  A backslash before a line break
stands for nothing.  Two escaped halves of a UTF-16 surrogate pair, one right after the other,
stand for one character, and a lone half stands for U+FFFD.  Raw CR LF and CR line breaks
stand for LF.
-/

namespace Reify
namespace Text
namespace Cooked

def hexDigit? (c : Char) : Option Nat :=
  if '0' ≤ c ∧ c ≤ '9' then some (c.toNat - '0'.toNat)
  else if 'a' ≤ c ∧ c ≤ 'f' then some (c.toNat - 'a'.toNat + 10)
  else if 'A' ≤ c ∧ c ≤ 'F' then some (c.toNat - 'A'.toNat + 10)
  else none

/-- The number that hexadecimal digits write after `value`. -/
def hexFrom? (value : Nat) : List Char → Option Nat
  | [] => some value
  | c :: cs => do hexFrom? (value * 16 + (← hexDigit? c)) cs

def hex? : List Char → Option Nat
  | [] => none
  | cs => hexFrom? 0 cs

/-- The number written by exactly `count` leading hexadecimal digits. -/
def fixedHex? (count : Nat) (cs : List Char) : Option Nat :=
  let digits := cs.take count
  if digits.length = count then hex? digits else none

/-- The code point escaped after a backslash and `u`, as four digits or as digits in braces,
and the number of characters that write it. -/
def codePoint? : List Char → Option (Nat × Nat)
  | '{' :: cs =>
    let digits := cs.takeWhile (· ≠ '}')
    if digits.length < cs.length then do
      let value ← hex? digits
      if value ≤ 0x10FFFF then some (value, digits.length + 2) else none
    else none
  | cs => (fixedHex? 4 cs).map (·, 4)

/-- The character with code point `value`, or U+FFFD for a surrogate. -/
def character (value : Nat) : Char :=
  if h : value.isValidChar then Char.ofNatAux value h else '\uFFFD'

def isHighSurrogate (value : Nat) : Bool := 0xD800 ≤ value && value ≤ 0xDBFF

def isLowSurrogate (value : Nat) : Bool := 0xDC00 ≤ value && value ≤ 0xDFFF

def surrogatePair (high low : Nat) : Char :=
  character (0x10000 + (high - 0xD800) * 0x400 + (low - 0xDC00))

/-- The low half escaped at the start of `cs`, and the number of characters that write it. -/
def lowHalf? : List Char → Option (Nat × Nat)
  | '\\' :: 'u' :: cs => do
    let (value, used) ← codePoint? cs
    if isLowSurrogate value then some (value, used + 2) else none
  | _ => none

/-- The value of the escape written by a backslash, `u` and then `cs`, and how much of `cs`
belongs to it. -/
def unicodeEscape (cs : List Char) : List Char × Nat :=
  match codePoint? cs with
  | none => (['u'], 0)
  | some (value, used) =>
    if isHighSurrogate value then
      match lowHalf? (cs.drop used) with
      | some (low, more) => ([surrogatePair value low], used + more)
      | none => (['\uFFFD'], used)
    else ([character value], used)

/-- How many characters at the start of `cs` complete a line break begun by CR. -/
def lineFeedAfter : List Char → Nat
  | '\n' :: _ => 1
  | _ => 0

def startsWithDigit : List Char → Bool
  | c :: _ => c.isDigit
  | [] => false

/-- The value of the escape written by a backslash and then `cs`, and how much of `cs` belongs
to it. -/
def escape : List Char → List Char × Nat
  | [] => (['\\'], 0)
  | c :: cs =>
    match c with
    | 'n' => (['\n'], 1)
    | 't' => (['\t'], 1)
    | 'r' => (['\r'], 1)
    | 'b' => (['\x08'], 1)
    | 'f' => (['\x0C'], 1)
    | 'v' => (['\x0B'], 1)
    | '0' => (if startsWithDigit cs then ['0'] else ['\x00'], 1)
    | 'x' =>
      match fixedHex? 2 cs with
      | some value => ([character value], 3)
      | none => (['x'], 1)
    | 'u' => let (value, used) := unicodeEscape cs; (value, used + 1)
    | '\r' => ([], lineFeedAfter cs + 1)
    | '\n' => ([], 1)
    | '\u2028' => ([], 1)
    | '\u2029' => ([], 1)
    | c => ([c], 1)

/-- The value of the element that begins with `c`, and how many of the characters after `c`
belong to it. -/
def element (c : Char) (cs : List Char) : List Char × Nat :=
  match c with
  | '\r' => (['\n'], lineFeedAfter cs)
  | '\\' => escape cs
  | c => ([c], 0)

/-- The value of the text after its first `skip` characters. -/
def cookFrom : Nat → List Char → List Char
  | _, [] => []
  | skip + 1, _ :: cs => cookFrom skip cs
  | 0, c :: cs => (element c cs).1 ++ cookFrom (element c cs).2 cs

theorem cookFrom_eq_drop (skip : Nat) (cs : List Char) :
    cookFrom skip cs = cookFrom 0 (cs.drop skip) := by
  induction cs generalizing skip with
  | nil => cases skip <;> rfl
  | cons c cs ih =>
    cases skip with
    | zero => rfl
    | succ skip => rw [cookFrom, ih, List.drop_succ_cons]

end Cooked

open Cooked in
def cook (text : String) : String := String.ofList (cookFrom 0 text.toList)

def isQuote (c : Char) : Bool := c == '"' || c == '\''

/-- The text between the quotes of a literal, or all of it if a quote is absent. -/
def unquoted : List Char → List Char
  | [] => []
  | c :: cs =>
    match cs.getLast? with
    | some d => if isQuote c && isQuote d then cs.dropLast else c :: cs
    | none => c :: cs

/-- The value of a string literal, given with its quotes. -/
def stringValue (raw : String) : String :=
  String.ofList (Cooked.cookFrom 0 (unquoted raw.toList))

end Text
end Reify
