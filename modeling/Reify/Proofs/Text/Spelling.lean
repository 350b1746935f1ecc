/-
Every way of writing a text in a literal is read back.

A character can be written as itself, as an escape by letter or number, as two halves of a
surrogate pair, or behind a backslash, and line continuations may stand between characters.
`Spells written value` says all this as a grammar of written texts.  Each piece of a spelling
is one element of literal text, whatever follows it (`Spelling.element`,
`Continuation.element`), so the value of the whole is the text that was spelled.
-/
import Mathlib.Data.List.Basic
import Reify.Text.Cooked

namespace Reify
namespace Text

open Cooked

/-! ## Numbers -/

inductive HexDigit : Char → Nat → Prop
  | decimal {n : Nat} (h : n < 10) : HexDigit (Char.ofNat ('0'.toNat + n)) n
  | lower {n : Nat} (h : n < 6) : HexDigit (Char.ofNat ('a'.toNat + n)) (10 + n)
  | upper {n : Nat} (h : n < 6) : HexDigit (Char.ofNat ('A'.toNat + n)) (10 + n)

/-- The digits write `value`, with any number of zeros in front. -/
inductive HexNumber : List Char → Nat → Prop
  | nil : HexNumber [] 0
  | snoc {ds : List Char} {value : Nat} {c : Char} {n : Nat} (number : HexNumber ds value)
      (digit : HexDigit c n) : HexNumber (ds ++ [c]) (value * 16 + n)

theorem HexDigit.value {c : Char} {n : Nat} (h : HexDigit c n) : hexDigit? c = some n := by
  have decimals : ∀ i : Fin 10, hexDigit? (Char.ofNat ('0'.toNat + i)) = some i.val := by decide
  have lowers : ∀ i : Fin 6, hexDigit? (Char.ofNat ('a'.toNat + i)) = some (10 + i.val) := by
    decide
  have uppers : ∀ i : Fin 6, hexDigit? (Char.ofNat ('A'.toNat + i)) = some (10 + i.val) := by
    decide
  cases h with
  | decimal h => exact decimals ⟨_, h⟩
  | lower h => exact lowers ⟨_, h⟩
  | upper h => exact uppers ⟨_, h⟩

theorem HexDigit.ne_brace {c : Char} {n : Nat} (h : HexDigit c n) : c ≠ '{' ∧ c ≠ '}' := by
  constructor
  · rintro rfl
    cases h.value
  · rintro rfl
    cases h.value

theorem hexFrom?_append (value : Nat) (ds es : List Char) :
    hexFrom? value (ds ++ es) = (hexFrom? value ds).bind fun v => hexFrom? v es := by
  induction ds generalizing value with
  | nil => rfl
  | cons d ds ih =>
    rw [List.cons_append, hexFrom?, hexFrom?]
    cases hexDigit? d with
    | none => rfl
    | some n => exact ih (value * 16 + n)

namespace HexNumber

variable {ds : List Char} {value : Nat}

theorem hexFrom? (h : HexNumber ds value) : Cooked.hexFrom? 0 ds = some value := by
  induction h with
  | nil => rfl
  | snoc _ digit ih =>
    rw [hexFrom?_append, ih, Option.bind_some, Cooked.hexFrom?, digit.value]
    rfl

theorem hex? (h : HexNumber ds value) (hne : ds ≠ []) : Cooked.hex? ds = some value := by
  obtain ⟨d, ds, rfl⟩ := List.exists_cons_of_ne_nil hne
  exact h.hexFrom?

theorem ne_brace (h : HexNumber ds value) : ∀ d ∈ ds, d ≠ '{' ∧ d ≠ '}' := by
  induction h with
  | nil => exact List.forall_mem_nil _
  | snoc _ digit ih =>
    intro d hd
    rcases List.mem_append.mp hd with hd | hd
    · exact ih d hd
    · rw [List.mem_singleton.mp hd]
      exact digit.ne_brace

theorem fixedHex? (h : HexNumber ds value) (hne : ds ≠ []) (next : List Char) :
    Cooked.fixedHex? ds.length (ds ++ next) = some value := by
  rw [Cooked.fixedHex?, List.take_left, if_pos rfl, h.hex? hne]

end HexNumber

/-- What stands between a backslash with `u` and the text that follows it: four digits, or
digits in braces, that write `value`. -/
inductive CodePoint (value : Nat) : List Char → Prop
  | fixed {ds : List Char} (number : HexNumber ds value) (count : ds.length = 4) :
    CodePoint value ds
  | braced {ds : List Char} (number : HexNumber ds value) (nonempty : ds ≠ []) :
    CodePoint value ('{' :: (ds ++ ['}']))

theorem CodePoint.codePoint? {value : Nat} {w : List Char} (h : CodePoint value w)
    (hle : value ≤ 0x10FFFF) (next : List Char) :
    Cooked.codePoint? (w ++ next) = some (value, w.length) := by
  cases h with
  | fixed number count =>
    have hne : w ≠ [] := List.ne_nil_of_length_pos (by omega)
    have hfixed := number.fixedHex? hne next
    rw [count] at hfixed
    rw [Cooked.codePoint?, hfixed, count]
    · rfl
    · intro cs hcs
      obtain ⟨d, ds, rfl⟩ := List.exists_cons_of_ne_nil hne
      exact (number.ne_brace d List.mem_cons_self).1 (List.cons.inj hcs).1
  | @braced ds number hne =>
    have hdigits : (ds ++ '}' :: next).takeWhile (· ≠ '}') = ds := by
      rw [List.takeWhile_append_of_pos fun d hd => by
        simpa using (number.ne_brace d hd).2]
      simp
    have htext : '{' :: (ds ++ ['}']) ++ next = '{' :: (ds ++ '}' :: next) := by simp
    have hclosed : ds.length < (ds ++ '}' :: next).length := by simp
    rw [htext, Cooked.codePoint?, hdigits, if_pos hclosed, number.hex? hne,
      Option.bind_eq_bind, Option.bind_some, if_pos hle]
    simp

/-! ## Spellings -/

def highHalf (c : Char) : Nat := 0xD800 + (c.toNat - 0x10000) / 0x400

def lowHalf (c : Char) : Nat := 0xDC00 + (c.toNat - 0x10000) % 0x400

/-- The characters that are escaped by a letter, each after its letter. -/
def letterEscapes : List (Char × Char) :=
  [('n', '\n'), ('t', '\t'), ('r', '\r'), ('b', '\x08'), ('f', '\x0C'), ('v', '\x0B')]

/-- The characters that mean something else, or nothing, behind a backslash. -/
def isMeaningful (c : Char) : Bool :=
  c.isDigit || ['\n', '\r', '\u2028', '\u2029'].contains c ||
    ['n', 't', 'r', 'b', 'f', 'v', 'x', 'u'].contains c

/-- The ways of writing the character `c` in a literal where `next` follows. -/
inductive Spelling (c : Char) (next : List Char) : List Char → Prop
  | itself (backslash : c ≠ '\\') (carriageReturn : c ≠ '\r') : Spelling c next [c]
  | letter {l : Char} (escape : (l, c) ∈ letterEscapes) : Spelling c next ['\\', l]
  | null (nul : c = '\x00') (digit : ∀ d ∈ next.head?, d.isDigit = false) :
    Spelling c next ['\\', '0']
  | byte {ds : List Char} (number : HexNumber ds c.toNat) (count : ds.length = 2) :
    Spelling c next ('\\' :: 'x' :: ds)
  | codePoint {w : List Char} (number : CodePoint c.toNat w) : Spelling c next ('\\' :: 'u' :: w)
  | halves {high low : List Char} (astral : 0x10000 ≤ c.toNat)
      (first : CodePoint (highHalf c) high) (second : CodePoint (lowHalf c) low) :
    Spelling c next ('\\' :: 'u' :: (high ++ '\\' :: 'u' :: low))
  | escaped (plain : isMeaningful c = false) : Spelling c next ['\\', c]

/-- The ways of going on in the next line of a literal where `next` follows. -/
inductive Continuation (next : List Char) : List Char → Prop
  | lineFeed : Continuation next ['\\', '\n']
  | returnLineFeed : Continuation next ['\\', '\r', '\n']
  | carriageReturn (alone : next.head? ≠ some '\n') : Continuation next ['\\', '\r']
  | lineSeparator : Continuation next ['\\', '\u2028']
  | paragraphSeparator : Continuation next ['\\', '\u2029']

/-- A written text and the characters it spells, with line continuations anywhere between. -/
inductive Spells : List Char → List Char → Prop
  | nil : Spells [] []
  | char {c : Char} {w next cs : List Char} (spelling : Spelling c next w)
      (rest : Spells next cs) : Spells (w ++ next) (c :: cs)
  | continuation {w next cs : List Char} (line : Continuation next w) (rest : Spells next cs) :
    Spells (w ++ next) cs

/-! ## Reading -/

/-- The text `w` is one element with the given value where `next` follows. -/
def IsElement (value next w : List Char) : Prop :=
  ∃ d ds, w = d :: ds ∧ element d (ds ++ next) = (value, ds.length)

theorem IsElement.cookFrom {value next w : List Char} (h : IsElement value next w) :
    cookFrom 0 (w ++ next) = value ++ cookFrom 0 next := by
  obtain ⟨d, ds, rfl, helement⟩ := h
  rw [List.cons_append, Cooked.cookFrom, helement, cookFrom_eq_drop, List.drop_left]

theorem isElement_of_escape {value next w : List Char}
    (h : escape (w ++ next) = (value, w.length)) : IsElement value next ('\\' :: w) :=
  ⟨'\\', w, rfl, h⟩

theorem isElement_of_unicodeEscape {value next w : List Char}
    (h : unicodeEscape (w ++ next) = (value, w.length)) :
    IsElement value next ('\\' :: 'u' :: w) := by
  refine isElement_of_escape ?_
  rw [List.cons_append, escape]
  simp only [h, List.length_cons]

theorem character_toNat (c : Char) : character c.toNat = c := by
  have hvalid : c.toNat.isValidChar := c.valid
  rw [character, dif_pos hvalid]
  rfl

theorem isHighSurrogate_iff {value : Nat} :
    isHighSurrogate value = true ↔ 0xD800 ≤ value ∧ value ≤ 0xDBFF := by
  rw [isHighSurrogate, Bool.and_eq_true, decide_eq_true_iff, decide_eq_true_iff]

theorem isLowSurrogate_iff {value : Nat} :
    isLowSurrogate value = true ↔ 0xDC00 ≤ value ∧ value ≤ 0xDFFF := by
  rw [isLowSurrogate, Bool.and_eq_true, decide_eq_true_iff, decide_eq_true_iff]

theorem not_isHighSurrogate (c : Char) : isHighSurrogate c.toNat = false := by
  have hvalid : c.toNat < 0xD800 ∨ 0xDFFF < c.toNat ∧ c.toNat < 0x110000 := c.valid
  rw [← Bool.not_eq_true, isHighSurrogate_iff]
  omega

theorem toNat_le (c : Char) : c.toNat ≤ 0x10FFFF := by
  have hvalid : c.toNat < 0xD800 ∨ 0xDFFF < c.toNat ∧ c.toNat < 0x110000 := c.valid
  omega

theorem isElement_byte {ds : List Char} {value : Nat} (number : HexNumber ds value)
    (count : ds.length = 2) (next : List Char) :
    IsElement [character value] next ('\\' :: 'x' :: ds) := by
  have hfixed := number.fixedHex? (List.ne_nil_of_length_pos (by omega)) next
  rw [count] at hfixed
  refine isElement_of_escape ?_
  rw [List.cons_append, escape]
  simp only [hfixed, List.length_cons, count]

section Numbers

variable {first second value : Nat} {high low w : List Char}

/-- A number that is no first half of a pair stands for its character. -/
theorem isElement_codePoint (number : CodePoint value w) (bound : value ≤ 0x10FFFF)
    (hscalar : isHighSurrogate value = false) (next : List Char) :
    IsElement [character value] next ('\\' :: 'u' :: w) := by
  refine isElement_of_unicodeEscape ?_
  rw [unicodeEscape, number.codePoint? bound]
  simp only [hscalar, Bool.false_eq_true, if_false]

theorem lowHalf?_codePoint (number : CodePoint second low)
    (hsecond : isLowSurrogate second = true) (next : List Char) :
    lowHalf? ('\\' :: 'u' :: (low ++ next)) = some (second, low.length + 2) := by
  have hbounds := isLowSurrogate_iff.mp hsecond
  rw [lowHalf?, number.codePoint? (by omega)]
  simp only [Option.bind_eq_bind, Option.bind_some, if_pos hsecond]

theorem isElement_pair (firstHalf : CodePoint first high) (hfirst : isHighSurrogate first = true)
    (secondHalf : CodePoint second low) (hsecond : isLowSurrogate second = true)
    (next : List Char) :
    IsElement [surrogatePair first second] next
      ('\\' :: 'u' :: (high ++ '\\' :: 'u' :: low)) := by
  have hbounds := isHighSurrogate_iff.mp hfirst
  have htext : high ++ '\\' :: 'u' :: low ++ next = high ++ '\\' :: 'u' :: (low ++ next) := by
    simp
  refine isElement_of_unicodeEscape ?_
  rw [htext, unicodeEscape, firstHalf.codePoint? (by omega)]
  dsimp only
  rw [if_pos hfirst, List.drop_left, lowHalf?_codePoint secondHalf hsecond]
  simp

end Numbers

section Halves

variable {c : Char} (h : 0x10000 ≤ c.toNat)

include h

theorem highHalf_bounds : 0xD800 ≤ highHalf c ∧ highHalf c ≤ 0xDBFF := by
  have hle := toNat_le c
  rw [highHalf]
  omega

omit h in
theorem lowHalf_bounds : 0xDC00 ≤ lowHalf c ∧ lowHalf c ≤ 0xDFFF := by
  rw [lowHalf]
  omega

theorem surrogatePair_halves : surrogatePair (highHalf c) (lowHalf c) = c := by
  have hsum : 0x10000 + (highHalf c - 0xD800) * 0x400 + (lowHalf c - 0xDC00) = c.toNat := by
    rw [highHalf, lowHalf]
    omega
  rw [surrogatePair, hsum, character_toNat]

theorem isElement_halves {high low : List Char} (hhigh : CodePoint (highHalf c) high)
    (hlow : CodePoint (lowHalf c) low) (next : List Char) :
    IsElement [c] next ('\\' :: 'u' :: (high ++ '\\' :: 'u' :: low)) := by
  have hpair := isElement_pair hhigh (isHighSurrogate_iff.mpr (highHalf_bounds h)) hlow
    (isLowSurrogate_iff.mpr lowHalf_bounds) next
  rwa [surrogatePair_halves h] at hpair

end Halves

theorem isElement_escaped {c : Char} (h : isMeaningful c = false) (next : List Char) :
    IsElement [c] next ['\\', c] := by
  refine isElement_of_escape ?_
  simp only [List.singleton_append, escape, List.length_singleton]
  split
  case h_14 => rfl
  -- Every other letter of the table means something.
  all_goals exact absurd h (by decide)

/-- A character as it can be written is one element, whose value is the character. -/
theorem Spelling.element {c : Char} {next w : List Char} (h : Spelling c next w) :
    IsElement [c] next w := by
  cases h with
  | itself hbackslash hreturn =>
    refine ⟨c, [], rfl, ?_⟩
    unfold Cooked.element
    split
    · exact absurd rfl hreturn
    · exact absurd rfl hbackslash
    · rfl
  | letter hletter =>
    refine isElement_of_escape ?_
    simp only [letterEscapes, List.mem_cons, Prod.mk.injEq, List.not_mem_nil, or_false] at hletter
    rcases hletter with ⟨rfl, rfl⟩ | ⟨rfl, rfl⟩ | ⟨rfl, rfl⟩ | ⟨rfl, rfl⟩ | ⟨rfl, rfl⟩ | ⟨rfl, rfl⟩
    all_goals rfl
  | null hnul hdigit =>
    subst hnul
    have hplain : startsWithDigit next = false := by
      cases next with
      | nil => rfl
      | cons d ds => exact hdigit d rfl
    refine isElement_of_escape ?_
    simp [escape, hplain]
  | byte number count =>
    have hbyte := isElement_byte number count next
    rwa [character_toNat] at hbyte
  | codePoint number =>
    have hscalar := isElement_codePoint number (toNat_le c) (not_isHighSurrogate c) next
    rwa [character_toNat] at hscalar
  | halves astral first second => exact isElement_halves astral first second next
  | escaped plain => exact isElement_escaped plain next

theorem lineFeedAfter_eq_zero {cs : List Char} (h : cs.head? ≠ some '\n') :
    lineFeedAfter cs = 0 := by
  unfold lineFeedAfter
  split
  · exact absurd rfl h
  · rfl

theorem Continuation.element {next w : List Char} (h : Continuation next w) :
    IsElement [] next w := by
  cases h with
  | carriageReturn alone =>
    refine isElement_of_escape ?_
    simp [escape, lineFeedAfter_eq_zero alone]
  | lineFeed | returnLineFeed | lineSeparator | paragraphSeparator =>
    exact isElement_of_escape rfl

theorem cookFrom_of_spells {written cs : List Char} (h : Spells written cs) :
    cookFrom 0 written = cs := by
  induction h with
  | nil => rfl
  | char spelling _ ih => rw [spelling.element.cookFrom, ih, List.singleton_append]
  | continuation line _ ih => rw [line.element.cookFrom, ih, List.nil_append]

/-- Whatever way a text is written in a literal, the literal's value is the text. -/
theorem cook_of_spells {written s : String} (h : Spells written.toList s.toList) :
    cook written = s := by
  rw [cook, cookFrom_of_spells h, String.ofList_toList]

/-- NUL with the digit 9 behind a line continuation, two bytes and a character in two halves. -/
theorem mixedSpelling_cooked :
    Spells "é\\0\\\r\n9\\x4a\\uD83D\\u{0DE00}\\`".toList "é\x009J😀`".toList ∧
      cook "é\\0\\\r\n9\\x4a\\uD83D\\u{0DE00}\\`" = "é\x009J😀`" := by
  have byte : HexNumber ['4', 'a'] 'J'.toNat := .snoc (.snoc .nil (.decimal (n := 4) (by decide)))
    (.lower (n := 0) (by decide))
  have high : HexNumber ['D', '8', '3', 'D'] (highHalf '😀') :=
    .snoc (.snoc (.snoc (.snoc .nil (.upper (n := 3) (by decide))) (.decimal (n := 8) (by decide)))
      (.decimal (n := 3) (by decide))) (.upper (n := 3) (by decide))
  have low : HexNumber ['0', 'D', 'E', '0', '0'] (lowHalf '😀') :=
    .snoc (.snoc (.snoc (.snoc (.snoc .nil (.decimal (n := 0) (by decide)))
      (.upper (n := 3) (by decide))) (.upper (n := 4) (by decide)))
      (.decimal (n := 0) (by decide))) (.decimal (n := 0) (by decide))
  have h : Spells "é\\0\\\r\n9\\x4a\\uD83D\\u{0DE00}\\`".toList "é\x009J😀`".toList :=
    .char (.itself (by decide) (by decide)) <| .char (.null rfl (by rintro d ⟨⟩; rfl)) <|
      .continuation .returnLineFeed <| .char (.itself (by decide) (by decide)) <|
        .char (.byte byte rfl) <|
          .char (.halves (by decide) (.fixed high rfl) (.braced low (by decide))) <|
            .char (.escaped (by decide)) .nil
  exact ⟨h, cook_of_spells h⟩

end Text
end Reify
