/-
A line continuation contributes nothing.

A text is read piece by piece, where a piece is a raw character or a well-formed escape
(`Complete`).  What a piece stands for may depend on the piece that follows it, in three cases:
a carriage return before a line feed, a null escape before a digit, and the first half of a
surrogate pair before the second.  Where the seam between two texts holds none of them, the
value of both together is the value of the one followed by the value of the other
(`Complete.cookFrom_append`).  A continuation has no such seam on either side, so it makes a
difference only to two halves of a pair that it parts (`cook_continuation_iff`).
-/
import Reify.Proofs.Text.Spelling

namespace Reify
namespace Text

open Cooked

/-! ## Pieces -/

/-- A raw character, or an escape that is well formed.  A backslash before any other character
than `x` and `u` is one. -/
inductive Piece : List Char → Prop
  | raw {c : Char} (backslash : c ≠ '\\') : Piece [c]
  | escaped {c : Char} (byte : c ≠ 'x') (codePoint : c ≠ 'u') : Piece ['\\', c]
  | byte {ds : List Char} {value : Nat} (number : HexNumber ds value) (count : ds.length = 2) :
    Piece ('\\' :: 'x' :: ds)
  | codePoint {w : List Char} {value : Nat} (number : CodePoint value w)
      (bound : value ≤ 0x10FFFF) : Piece ('\\' :: 'u' :: w)

inductive Complete : List Char → Prop
  | nil : Complete []
  | cons {w rest : List Char} (first : Piece w) (others : Complete rest) : Complete (w ++ rest)

namespace Complete

variable {a s : List Char}

theorem singleton {w : List Char} (h : Piece w) : Complete w := by
  have hw := cons h .nil
  rwa [List.append_nil] at hw

theorem append (ha : Complete a) (hs : Complete s) : Complete (a ++ s) := by
  induction ha with
  | nil => exact hs
  | cons first _ ih =>
    rw [List.append_assoc]
    exact cons first ih

theorem tail {c : Char} (h : Complete (c :: a)) (hc : c ≠ '\\') : Complete a := by
  generalize hcs : c :: a = cs at h
  cases h with
  | nil => cases hcs
  | cons first others =>
    cases first with
    | raw =>
      obtain ⟨-, rfl⟩ := List.cons.inj hcs
      exact others
    | escaped | byte | codePoint => exact absurd (List.cons.inj hcs).1 hc

end Complete

/-! ## Seams -/

/-- The text ends in the escape of the null character. -/
def EndsInNull (a : List Char) : Prop := ∃ front, Complete front ∧ a = front ++ ['\\', '0']

/-- The halves of an escaped surrogate pair, one at the end of `a` and one at the start of
`b`. -/
inductive PartsPair : List Char → List Char → Prop
  | mk {front high low back : List Char} {first second : Nat} (before : Complete front)
      (firstHalf : CodePoint first high) (isFirst : isHighSurrogate first = true)
      (secondHalf : CodePoint second low) (isSecond : isLowSurrogate second = true)
      (after : Complete back) :
    PartsPair (front ++ '\\' :: 'u' :: high) ('\\' :: 'u' :: (low ++ back))

/-- No piece at the end of `a` is read differently because `s` follows. -/
structure CleanSeam (a s : List Char) : Prop where
  lineBreak : a.getLast? = some '\r' → s.head? ≠ some '\n'
  null : EndsInNull a → ∀ d ∈ s.head?, d.isDigit = false
  pair : ¬ PartsPair a s

theorem cleanSeam_nil (a : List Char) : CleanSeam a [] where
  lineBreak := by rintro - ⟨⟩
  null := by rintro - _ ⟨⟩
  pair h := by cases h

/-- Only the end of a text has a seam with what follows it. -/
theorem CleanSeam.of_append {w rest s : List Char} (hw : Complete w)
    (h : CleanSeam (w ++ rest) s) : CleanSeam rest s where
  lineBreak hlast := h.lineBreak (by rw [List.getLast?_append, hlast, Option.some_or])
  null := by
    rintro ⟨front, hfront, rfl⟩
    exact h.null ⟨w ++ front, hw.append hfront, (List.append_assoc ..).symm⟩
  pair := by
    rintro ⟨before, firstHalf, isFirst, secondHalf, isSecond, after⟩
    refine h.pair ?_
    rw [← List.append_assoc]
    exact ⟨hw.append before, firstHalf, isFirst, secondHalf, isSecond, after⟩

/-! ## Reading -/

/-- Only few escapes read what follows their letter. -/
theorem escape_steady {c : Char} (hbyte : c ≠ 'x') (hcodePoint : c ≠ 'u') (hnull : c ≠ '0')
    (hreturn : c ≠ '\r') (next : List Char) : escape (c :: next) = ((escape [c]).1, 1) := by
  simp only [escape]
  split
  case h_7 => exact absurd rfl hnull
  case h_8 => exact absurd rfl hbyte
  case h_9 => exact absurd rfl hcodePoint
  case h_10 => exact absurd rfl hreturn
  all_goals rfl

theorem isElement_lone {first : Nat} {high next : List Char} (firstHalf : CodePoint first high)
    (bound : first ≤ 0x10FFFF) (hfirst : isHighSurrogate first = true)
    (hlone : lowHalf? next = none) : IsElement ['\uFFFD'] next ('\\' :: 'u' :: high) := by
  refine isElement_of_unicodeEscape ?_
  rw [unicodeEscape, firstHalf.codePoint? bound]
  simp only [hfirst, if_true, List.drop_left, hlone]

/-- Only the escape of a second half is read as one. -/
theorem Piece.lowHalf? {w : List Char} (h : Piece w) :
    (∀ next, lowHalf? (w ++ next) = none) ∨
      ∃ low second, w = '\\' :: 'u' :: low ∧ CodePoint second low ∧
        isLowSurrogate second = true := by
  cases h with
  | raw backslash =>
    left
    intro next
    unfold Cooked.lowHalf?
    split
    · next h => exact absurd (List.cons.inj h).1 backslash
    · rfl
  | escaped byte codePoint =>
    left
    intro next
    unfold Cooked.lowHalf?
    split
    · next h => exact absurd (List.cons.inj (List.cons.inj h).2).1 codePoint
    · rfl
  | byte => exact .inl fun _ => rfl
  | @codePoint w value number bound =>
    cases hlow : isLowSurrogate value with
    | true => exact .inr ⟨w, value, rfl, number, hlow⟩
    | false =>
      left
      intro next
      rw [List.cons_append, List.cons_append, Cooked.lowHalf?, number.codePoint? bound]
      simp [hlow]

/-- `w` is the first element of `a`, with the same value whatever follows `a`, as long as the
seam is clean. -/
structure FirstElement (a w rest value : List Char) : Prop where
  split : a = w ++ rest
  nonempty : w ≠ []
  before : Complete w
  after : Complete rest
  element : ∀ s, Complete s → CleanSeam a s → IsElement value (rest ++ s) w

section FirstElement

variable {w rest value : List Char}

/-- A piece that ends in a carriage return takes the line feed that follows it. -/
theorem exists_firstElement_return (piece : Piece w) (others : Complete rest)
    (hlast : w.getLast? = some '\r')
    (alone : ∀ next, next.head? ≠ some '\n' → IsElement value next w)
    (joined : ∀ next, IsElement value next (w ++ ['\n'])) :
    ∃ w' rest' value, FirstElement (w ++ rest) w' rest' value := by
  have hw : w ≠ [] := by
    rintro rfl
    cases hlast
  rcases rest with - | ⟨d, rest⟩
  · refine ⟨w, [], value, rfl, hw, .singleton piece, .nil, fun s _ hseam => alone s ?_⟩
    rw [List.append_nil] at hseam
    exact hseam.lineBreak hlast
  · by_cases hd : d = '\n'
    · subst hd
      have hfeed : Complete ['\n'] := .singleton (.raw (by decide))
      refine ⟨w ++ ['\n'], rest, value, ?_, by simp, (Complete.singleton piece).append hfeed,
        others.tail (by decide), fun s _ _ => joined (rest ++ s)⟩
      rw [List.append_assoc, List.singleton_append]
    · refine ⟨w, d :: rest, value, rfl, hw, .singleton piece, others, fun s _ _ => alone _ ?_⟩
      rw [List.cons_append, List.head?_cons]
      exact fun h => hd (Option.some.inj h)

/-- The null escape is read as a digit before a digit. -/
theorem exists_firstElement_null (others : Complete rest) :
    ∃ w' rest' value, FirstElement ('\\' :: '0' :: rest) w' rest' value := by
  have piece : Piece ['\\', '0'] := .escaped (by decide) (by decide)
  refine ⟨['\\', '0'], rest, if startsWithDigit rest then ['0'] else ['\x00'], rfl,
    List.cons_ne_nil _ _, .singleton piece, others, fun s _ hseam => ?_⟩
  have hdigit : startsWithDigit (rest ++ s) = startsWithDigit rest := by
    cases rest with
    | cons d rest => rfl
    | nil =>
      cases s with
      | nil => rfl
      | cons d s => exact hseam.null ⟨[], .nil, rfl⟩ d rfl
  refine isElement_of_escape ?_
  rw [List.singleton_append, escape]
  simp only [hdigit, List.length_singleton]

theorem exists_firstElement_high {first : Nat} (number : CodePoint first w)
    (bound : first ≤ 0x10FFFF) (hfirst : isHighSurrogate first = true) (others : Complete rest) :
    ∃ w' rest' value, FirstElement ('\\' :: 'u' :: w ++ rest) w' rest' value := by
  have piece : Piece ('\\' :: 'u' :: w) := .codePoint number bound
  have hne : '\\' :: 'u' :: w ≠ [] := List.cons_ne_nil _ _
  have lone {next : List Char} (hnone : lowHalf? next = none) :
      IsElement ['\uFFFD'] next ('\\' :: 'u' :: w) := isElement_lone number bound hfirst hnone
  cases others with
  | nil =>
    refine ⟨_, _, ['\uFFFD'], rfl, hne, .singleton piece, .nil, fun s hs hseam => lone ?_⟩
    cases hs with
    | nil => rfl
    | @cons v back next after =>
      rcases next.lowHalf? with hnone | ⟨low, second, rfl, number', hsecond⟩
      · exact hnone back
      · have hpair : PartsPair ([] ++ '\\' :: 'u' :: w) ('\\' :: 'u' :: (low ++ back)) :=
          .mk .nil number hfirst number' hsecond after
        rw [List.append_nil] at hseam
        exact absurd hpair hseam.pair
  | @cons v back next after =>
    rcases next.lowHalf? with hnone | ⟨low, second, rfl, number', hsecond⟩
    · refine ⟨_, _, ['\uFFFD'], rfl, hne, .singleton piece, .cons next after,
        fun s _ _ => lone ?_⟩
      rw [List.append_assoc]
      exact hnone (back ++ s)
    · refine ⟨'\\' :: 'u' :: (w ++ '\\' :: 'u' :: low), back, _, ?_, List.cons_ne_nil _ _,
        (Complete.singleton piece).append (.singleton next), after,
        fun s _ _ => isElement_pair number hfirst number' hsecond _⟩
      simp

theorem exists_firstElement {a : List Char} (ha : Complete a) (hne : a ≠ []) :
    ∃ w rest value, FirstElement a w rest value := by
  cases ha with
  | nil => exact absurd rfl hne
  | @cons w rest piece others =>
    -- A piece that reads nothing of what follows it.
    have steady {value : List Char} (hw : w ≠ []) (h : ∀ next, IsElement value next w) :
        ∃ w' rest' value, FirstElement (w ++ rest) w' rest' value :=
      ⟨w, rest, value, rfl, hw, .singleton piece, others, fun s _ _ => h (rest ++ s)⟩
    cases piece with
    | @raw c backslash =>
      by_cases hc : c = '\r'
      · subst hc
        have alone (next : List Char) (hnext : next.head? ≠ some '\n') :
            IsElement ['\n'] next ['\r'] := by
          refine ⟨'\r', [], rfl, ?_⟩
          rw [List.nil_append, element, lineFeedAfter_eq_zero hnext, List.length_nil]
        have joined (next : List Char) : IsElement ['\n'] next ['\r', '\n'] :=
          ⟨'\r', ['\n'], rfl, rfl⟩
        exact exists_firstElement_return (.raw backslash) others rfl alone joined
      · exact steady (List.cons_ne_nil _ _) fun _ => (Spelling.itself backslash hc).element
    | @escaped c byte codePoint =>
      by_cases hreturn : c = '\r'
      · subst hreturn
        have alone (next : List Char) (hnext : next.head? ≠ some '\n') :
            IsElement [] next ['\\', '\r'] := (Continuation.carriageReturn hnext).element
        have joined (next : List Char) : IsElement [] next ['\\', '\r', '\n'] :=
          Continuation.returnLineFeed.element
        exact exists_firstElement_return (.escaped byte codePoint) others rfl alone joined
      · by_cases hnull : c = '0'
        · subst hnull
          exact exists_firstElement_null others
        · exact steady (List.cons_ne_nil _ _) fun next =>
            isElement_of_escape (escape_steady byte codePoint hnull hreturn next)
    | byte number count =>
      exact steady (List.cons_ne_nil _ _) fun next => isElement_byte number count next
    | @codePoint w value number bound =>
      cases hhigh : isHighSurrogate value with
      | true => exact exists_firstElement_high number bound hhigh others
      | false =>
        exact steady (List.cons_ne_nil _ _) fun next => isElement_codePoint number bound hhigh next

end FirstElement

/-- Reading goes through a clean seam as if the two texts stood alone. -/
theorem Complete.cookFrom_append {a s : List Char} (ha : Complete a) (hs : Complete s)
    (hseam : CleanSeam a s) :
    Cooked.cookFrom 0 (a ++ s) = Cooked.cookFrom 0 a ++ Cooked.cookFrom 0 s := by
  by_cases hne : a = []
  · subst hne
    rfl
  · obtain ⟨w, rest, value, h⟩ := exists_firstElement ha hne
    have htogether := (h.element s hs hseam).cookFrom
    have halone := (h.element [] .nil (cleanSeam_nil a)).cookFrom
    have hshorter : rest.length < a.length := by
      have hpos := List.length_pos_of_ne_nil h.nonempty
      rw [h.split, List.length_append]
      omega
    have hrest := cookFrom_append h.after hs (.of_append h.before (h.split ▸ hseam))
    rw [List.append_nil] at halone
    rw [h.split, List.append_assoc, htogether, halone, hrest, List.append_assoc]
termination_by a.length

/-! ## Continuations -/

theorem cleanSeam_continuation (a b : List Char) : CleanSeam a ('\\' :: '\n' :: b) where
  lineBreak := by rintro - ⟨⟩
  null := by rintro - _ ⟨⟩; rfl
  pair h := by cases h

theorem Complete.cookFrom_continuation {a b : List Char} (ha : Complete a) (hb : Complete b) :
    Cooked.cookFrom 0 (a ++ '\\' :: '\n' :: b) = Cooked.cookFrom 0 a ++ Cooked.cookFrom 0 b := by
  have hline : Complete ('\\' :: '\n' :: b) := .cons (.escaped (by decide) (by decide)) hb
  have hread : IsElement [] b ['\\', '\n'] := Continuation.lineFeed.element
  have hskip : Cooked.cookFrom 0 ('\\' :: '\n' :: b) = Cooked.cookFrom 0 b := hread.cookFrom
  rw [ha.cookFrom_append hline (cleanSeam_continuation a b), hskip]

theorem cleanSeam_high {first : Nat} {high : List Char} (number : CodePoint first high)
    (hfirst : isHighSurrogate first = true) (a s : List Char) :
    CleanSeam a ('\\' :: 'u' :: (high ++ s)) where
  lineBreak := by rintro - ⟨⟩
  null := by rintro - _ ⟨⟩; rfl
  pair h := by
    generalize htext : '\\' :: 'u' :: (high ++ s) = text at h
    cases h with
    | @mk _ _ low back _ second _ _ _ number' hsecond _ =>
      have hbounds := isHighSurrogate_iff.mp hfirst
      have hbounds' := isLowSurrogate_iff.mp hsecond
      have hread := number.codePoint? (by omega) s
      have hread' := number'.codePoint? (by omega) back
      rw [(List.cons.inj (List.cons.inj htext).2).2, hread', Option.some.injEq,
        Prod.mk.injEq] at hread
      omega

theorem PartsPair.length_cookFrom {a b : List Char} (h : PartsPair a b) :
    (Cooked.cookFrom 0 a ++ Cooked.cookFrom 0 b).length =
      (Cooked.cookFrom 0 (a ++ b)).length + 1 := by
  cases h with
  | @mk front high low back first second before number hfirst number' hsecond after =>
    have hbounds := isHighSurrogate_iff.mp hfirst
    have hbounds' := isLowSurrogate_iff.mp hsecond
    have hscalar : isHighSurrogate second = false := by
      rw [← Bool.not_eq_true, isHighSurrogate_iff]
      omega
    have hhigh : Piece ('\\' :: 'u' :: high) := .codePoint number (by omega)
    have hlow : Piece ('\\' :: 'u' :: low) := .codePoint number' (by omega)
    have hnone : lowHalf? [] = none := rfl
    have hlone := (isElement_lone number (by omega) hfirst hnone).cookFrom
    have hsecondHalf := (isElement_codePoint number' (by omega) hscalar back).cookFrom
    have hpair := (isElement_pair number hfirst number' hsecond back).cookFrom
    have hfront := before.cookFrom_append (.singleton hhigh)
      (List.append_nil high ▸ cleanSeam_high number hfirst front [])
    have hboth := before.cookFrom_append (.cons hhigh (.cons hlow after))
      (cleanSeam_high number hfirst front _)
    have htext : '\\' :: 'u' :: (high ++ '\\' :: 'u' :: low) ++ back =
        '\\' :: 'u' :: high ++ ('\\' :: 'u' :: low ++ back) := by simp
    have hafter : '\\' :: 'u' :: (low ++ back) = '\\' :: 'u' :: low ++ back := rfl
    rw [List.append_nil] at hlone
    rw [htext] at hpair
    rw [hafter, List.append_assoc front, hboth, hpair, hfront, hlone, hsecondHalf]
    simp only [List.length_append, List.length_singleton, cookFrom, List.length_nil]
    omega

/-- A line continuation between two texts made of pieces contributes nothing, unless it parts
the two halves of an escaped surrogate pair. -/
theorem cook_continuation_iff {a b : String} (ha : Complete a.toList) (hb : Complete b.toList)
    (hreturn : a.toList.getLast? ≠ some '\r')
    (hnull : EndsInNull a.toList → ∀ d ∈ b.toList.head?, d.isDigit = false) :
    cook (a ++ "\\\n" ++ b) = cook (a ++ b) ↔ ¬ PartsPair a.toList b.toList := by
  have hparted : Cooked.cookFrom 0 (a ++ "\\\n" ++ b).toList =
      Cooked.cookFrom 0 a.toList ++ Cooked.cookFrom 0 b.toList := by
    rw [← ha.cookFrom_continuation hb, String.toList_append, String.toList_append,
      List.append_assoc]
    rfl
  rw [cook, cook, String.ofList_inj, hparted, String.toList_append]
  constructor
  · intro h hpair
    have hlength := hpair.length_cookFrom
    rw [h] at hlength
    omega
  · intro hpair
    have hseam : CleanSeam a.toList b.toList := ⟨fun h => absurd h hreturn, hnull, hpair⟩
    exact (ha.cookFrom_append hb hseam).symm

/-- A pair that a continuation parts, and the same halves with a null character between. -/
theorem partedGrin_continued :
    Complete "!\\uD83D".toList ∧ Complete "\\u{DE00}".toList ∧
      cook ("!\\uD83D" ++ "\\\n" ++ "\\u{DE00}") ≠ cook ("!\\uD83D" ++ "\\u{DE00}") ∧
      Complete "\\uD83D\\0".toList ∧
      cook ("\\uD83D\\0" ++ "\\\n" ++ "\\u{DE00}") = cook ("\\uD83D\\0" ++ "\\u{DE00}") := by
  have high : CodePoint 0xD83D ['D', '8', '3', 'D'] :=
    .fixed (.snoc (.snoc (.snoc (.snoc .nil (.upper (n := 3) (by decide)))
      (.decimal (n := 8) (by decide))) (.decimal (n := 3) (by decide)))
      (.upper (n := 3) (by decide))) rfl
  have low : CodePoint 0xDE00 ['{', 'D', 'E', '0', '0', '}'] :=
    .braced (.snoc (.snoc (.snoc (.snoc .nil (.upper (n := 3) (by decide)))
      (.upper (n := 4) (by decide))) (.decimal (n := 0) (by decide)))
      (.decimal (n := 0) (by decide))) (by decide)
  have highPiece : Piece ['\\', 'u', 'D', '8', '3', 'D'] := .codePoint high (by decide)
  have hsecond : Complete "\\u{DE00}".toList := .singleton (.codePoint low (by decide))
  have hfirst : Complete "!\\uD83D".toList :=
    .cons (.raw (c := '!') (by decide)) (.singleton highPiece)
  have hnull : Complete "\\uD83D\\0".toList :=
    .cons highPiece (.singleton (.escaped (c := '0') (by decide) (by decide)))
  have hbefore : Complete ['!'] := .singleton (.raw (by decide))
  have hparted : PartsPair (['!'] ++ ['\\', 'u', 'D', '8', '3', 'D'])
      ('\\' :: 'u' :: (['{', 'D', 'E', '0', '0', '}'] ++ [])) :=
    .mk hbefore high rfl low rfl .nil
  refine ⟨hfirst, hsecond, ?_, hnull, ?_⟩
  · refine fun h => (cook_continuation_iff hfirst hsecond (by decide) ?_).mp h hparted
    rintro - _ ⟨⟩
    rfl
  · refine (cook_continuation_iff hnull hsecond (by decide) ?_).mpr ?_
    · rintro - _ ⟨⟩
      rfl
    · intro h
      exact absurd h.length_cookFrom (by decide)

example : cook "\\uD83D\\\n\\uDE00" = "\uFFFD\uFFFD" := rfl
example : cook "\\uD83D\\uDE00" = "😀" := rfl

end Text
end Reify
