/-
Dates and times of TOML.

A date and a time of day stand alone or together, and together they may have an offset from
universal time.  `text` writes them in one form: seconds with the fraction they have, down to
nanoseconds, and an offset as hours and minutes.
-/
import Reify.Document
import Reify.Toml.Number

namespace Reify
namespace Toml

/-- What a reader makes of the start of a text, and the rest. -/
abbrev Reader (α : Type) := List Char → Option (α × List Char)

structure Date where
  year : Nat
  month : Nat
  day : Nat
  deriving DecidableEq, Repr

structure Time where
  hour : Nat
  minute : Nat
  second : Nat
  nanosecond : Nat
  deriving DecidableEq, Repr

inductive Offset
  | universal
  /-- Minutes before or after universal time. -/
  | minutes (n : Int)
  deriving DecidableEq, Repr

inductive DateTime
  | date (d : Date)
  | time (t : Time)
  | moment (d : Date) (t : Time) (offset : Option Offset)
  deriving DecidableEq, Repr

/-! ## Reading -/

def digits? (count : Nat) : Reader Nat := fun cs =>
  let ds := cs.take count
  if ds.length = count && ds.all Char.isDigit then some (valueOf 10 ds, cs.drop count) else none

def after? (c : Char) : List Char → Option (List Char)
  | d :: cs => if d = c then some cs else none
  | [] => none

def daysInMonth (year month : Nat) : Nat :=
  if month = 2 then
    if (year % 4 = 0 && year % 100 ≠ 0) || year % 400 = 0 then 29 else 28
  else if month = 4 || month = 6 || month = 9 || month = 11 then 30
  else 31

def date? : Reader Date := fun cs => do
  let (year, cs) ← digits? 4 cs
  let (month, cs) ← digits? 2 (← after? '-' cs)
  let (day, cs) ← digits? 2 (← after? '-' cs)
  if 1 ≤ month && month ≤ 12 && 1 ≤ day && day ≤ daysInMonth year month then
    some (⟨year, month, day⟩, cs)
  else none

/-- The nanoseconds that the digits of a fraction write; digits past the ninth are cut off. -/
def nanoseconds (ds : List Char) : Nat :=
  valueOf 10 (ds.take 9 ++ List.replicate (9 - ds.length) '0')

def fraction? : Reader Nat
  | '.' :: cs =>
    let ds := cs.takeWhile Char.isDigit
    if ds.isEmpty then none else some (nanoseconds ds, cs.drop ds.length)
  | cs => some (0, cs)

def time? : Reader Time := fun cs => do
  let (hour, cs) ← digits? 2 cs
  let (minute, cs) ← digits? 2 (← after? ':' cs)
  let (second, cs) ← digits? 2 (← after? ':' cs)
  if hour ≤ 23 && minute ≤ 59 && second ≤ 60 then
    let (nanosecond, cs) ← fraction? cs
    some (⟨hour, minute, second, nanosecond⟩, cs)
  else none

/-- An offset from universal time, none if the text ends. -/
def offset? : Reader (Option Offset)
  | [] => some (none, [])
  | c :: cs =>
    if c = 'Z' || c = 'z' then some (some .universal, cs)
    else if c = '+' || c = '-' then do
      let (hour, cs) ← digits? 2 cs
      let (minute, cs) ← digits? 2 (← after? ':' cs)
      let n := Int.ofNat (hour * 60 + minute)
      if hour ≤ 23 && minute ≤ 59 then some (some (.minutes (if c = '-' then -n else n)), cs)
      else none
    else none

/-- What the whole text is to a reader. -/
def whole? {α : Type} (reader : Reader α) (cs : List Char) : Option α :=
  match reader cs with
  | some (a, []) => some a
  | _ => none

def timeOfDate? (cs : List Char) : Option (Time × Option Offset) := do
  let (t, cs) ← time? cs
  some (t, ← whole? offset? cs)

def isTimeMark (c : Char) : Bool := c == 'T' || c == 't' || c == ' '

def dateTime? (cs : List Char) : Option DateTime :=
  match whole? time? cs with
  | some t => some (.time t)
  | none =>
    match date? cs with
    | some (d, []) => some (.date d)
    | some (d, c :: rest) =>
      if isTimeMark c then (timeOfDate? rest).map fun (t, offset) => .moment d t offset
      else none
    | none => none

/-! ## Writing -/

/-- A number in decimal, with zeros in front to have at least `count` digits. -/
def padded (count n : Nat) : List Char :=
  let ds := Nat.toDigits 10 n
  List.replicate (count - ds.length) '0' ++ ds

def Date.text (d : Date) : List Char :=
  padded 4 d.year ++ '-' :: (padded 2 d.month ++ '-' :: padded 2 d.day)

def fractionText (nanosecond : Nat) : List Char :=
  if nanosecond = 0 then []
  else '.' :: ((padded 9 nanosecond).reverse.dropWhile (· == '0')).reverse

def Time.text (t : Time) : List Char :=
  padded 2 t.hour ++ ':' :: (padded 2 t.minute ++ ':' :: padded 2 t.second) ++
    fractionText t.nanosecond

def Offset.text : Offset → List Char
  | universal => ['Z']
  | minutes n =>
    (if n < 0 then '-' else '+') ::
      (padded 2 (n.natAbs / 60) ++ ':' :: padded 2 (n.natAbs % 60))

namespace DateTime

def text : DateTime → List Char
  | date d => d.text
  | time t => t.text
  | moment d t offset => d.text ++ 'T' :: (t.text ++ (offset.map Offset.text).getD [])

/-- The key of the text in the record that a date or time is read as. -/
def key : String := "$__toml_private_datetime"

def toDocument (d : DateTime) : Document := .record [(key, .text (String.ofList d.text))]

example :
    (dateTime? "1979-05-27 00:32:00.120-07:00".toList).map text =
      some "1979-05-27T00:32:00.12-07:00".toList := by decide

end DateTime

end Toml
end Reify
