/-
Numbers of TOML.

An integer has 64 bits.  A float is written in decimal, and a text that would round past the
greatest double is refused, unless it is negative.
-/
import Reify.Text.Cooked

namespace Reify
namespace Toml

open Text.Cooked (hexDigit?)

/-! ## Digits -/

/-- Whether the text is a run of digits, single underscores between them allowed. -/
def isRun (isDigit : Char → Bool) : List Char → Bool
  | [] => false
  | [c] => isDigit c
  | c :: '_' :: cs => isDigit c && isRun isDigit cs
  | c :: cs => isDigit c && isRun isDigit cs

def isDecimal : List Char → Bool
  | ['0'] => true
  | '0' :: _ => false
  | cs => isRun Char.isDigit cs

def valueOf (base : Nat) (cs : List Char) : Nat :=
  cs.foldl (fun n c => match hexDigit? c with | some d => n * base + d | none => n) 0

/-- The text after a sign, and whether the sign is a minus. -/
def unsigned : List Char → Bool × List Char
  | '-' :: cs => (true, cs)
  | '+' :: cs => (false, cs)
  | cs => (false, cs)

/-! ## Integers -/

def isHexDigit (c : Char) : Bool := (hexDigit? c).isSome

def isOctalDigit (c : Char) : Bool := '0' ≤ c && c ≤ '7'

def isBinaryDigit (c : Char) : Bool := c == '0' || c == '1'

/-- The integer that the text writes, sign and size left aside. -/
def magnitude? : List Char → Option Nat
  | '0' :: 'x' :: cs => if isRun isHexDigit cs then some (valueOf 16 cs) else none
  | '0' :: 'o' :: cs => if isRun isOctalDigit cs then some (valueOf 8 cs) else none
  | '0' :: 'b' :: cs => if isRun isBinaryDigit cs then some (valueOf 2 cs) else none
  | cs => if isDecimal cs then some (valueOf 10 cs) else none

/-- Whether the text is written in another base than ten, which goes without a sign. -/
def isPrefixed : List Char → Bool
  | '0' :: c :: _ => c == 'x' || c == 'o' || c == 'b'
  | _ => false

/-- The size of the least integer, one more than the greatest. -/
def integerLimit : Nat := 9223372036854775808

def integer? (cs : List Char) : Option Int :=
  let (negative, digits) := unsigned cs
  if isPrefixed digits && digits.length < cs.length then none
  else do
    let n ← magnitude? digits
    if negative then if n ≤ integerLimit then some (-(Int.ofNat n)) else none
    else if n < integerLimit then some (Int.ofNat n) else none

/-! ## Floats -/

/-- A number written in decimal: `mantissa` times ten to the power `exponent`. -/
structure Decimal where
  negative : Bool
  mantissa : Nat
  exponent : Int
  deriving DecidableEq, Repr

namespace Decimal

/-- The least number that rounds past the greatest double, which it exceeds by half of the last
place. -/
def doubleLimit : Nat := Nat.pow 2 970 * (Nat.pow 2 54 - 1)

/-- Whether the size of a number is `limit` or more, for a limit between 1 and ten to the power
310.  Where the exponent alone decides, no power is computed. -/
def reaches (limit : Nat) (d : Decimal) : Bool :=
  match d.exponent with
  | .ofNat e =>
    if 310 ≤ e then d.mantissa != 0 else limit ≤ d.mantissa * Nat.pow 10 e
  | .negSucc e =>
    e < (Nat.toDigits 10 d.mantissa).length && limit * Nat.pow 10 (e + 1) ≤ d.mantissa

def overflows (d : Decimal) : Bool := !d.negative && d.reaches doubleLimit

example : overflows ⟨false, 17976931348623157, 292⟩ = false := by decide +kernel
example : overflows ⟨false, 17976931348623159, 292⟩ = true := by decide +kernel
example : overflows ⟨false, 1, 999999999999⟩ = true := by decide +kernel
example : overflows ⟨true, 1, 400⟩ = false := by decide +kernel

end Decimal

def isExponentMark (c : Char) : Bool := c == 'e' || c == 'E'

def exponent? : List Char → Option Int
  | c :: cs =>
    let (negative, digits) := unsigned cs
    if isExponentMark c && isRun Char.isDigit digits then
      let n := Int.ofNat (valueOf 10 digits)
      some (if negative then -n else n)
    else none
  | [] => none

/-- The number that the text writes with a fraction or an exponent or both. -/
def decimal? (cs : List Char) : Option Decimal :=
  let (negative, digits) := unsigned cs
  let whole := digits.takeWhile fun c => c != '.' && !isExponentMark c
  if isDecimal whole then
    match digits.drop whole.length with
    | '.' :: cs =>
      let fraction := cs.takeWhile fun c => !isExponentMark c
      if isRun Char.isDigit fraction then do
        let rest := cs.drop fraction.length
        let exponent ← if rest.isEmpty then some 0 else exponent? rest
        let places := (fraction.filter (· != '_')).length
        some ⟨negative, valueOf 10 (whole ++ fraction), exponent - Int.ofNat places⟩
      else none
    | tail => do some ⟨negative, valueOf 10 whole, ← exponent? tail⟩
  else none

/-- Whether the text names an infinity or what is not a number. -/
def isSpecial (cs : List Char) : Bool :=
  let name := (unsigned cs).2
  name == ['i', 'n', 'f'] || name == ['n', 'a', 'n']

def isFloat (cs : List Char) : Bool :=
  isSpecial cs ||
    match decimal? cs with
    | some d => !d.overflows
    | none => false

end Toml
end Reify
