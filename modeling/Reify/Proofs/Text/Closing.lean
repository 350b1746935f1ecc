/-
A quoted text ends where it seems to.

`afterLiteral?` looks for the end of a double-quoted literal: a backslash skips a character, and
the first quote that is not skipped closes.  A quoted text is found to end at its last character,
whatever follows it (`isLiteral_quoteChars`), it holds no control characters, and its value as a
literal is the text (`stringValue_quote`).  Codes that differ at most between the quotes of such
literals (`SameOutside`) have the same code `outside` of them, if the texts that they keep leave
no literal open.
-/
import Reify.Proofs.Text.Quoted

namespace Reify
namespace Text

/-! ## The end of a literal -/

/-- What follows the quote `q` that closes a literal, from inside of it. -/
def afterQuote? (q : Char) : List Char → Option (List Char)
  | [] => none
  | '\\' :: _ :: cs => afterQuote? q cs
  | c :: cs => if c = q then some cs else afterQuote? q cs

/-- What follows the double-quoted literal that a text begins with. -/
def afterLiteral? : List Char → Option (List Char)
  | '"' :: cs => afterQuote? '"' cs
  | _ => none

/-- The text is one double-quoted literal, whatever follows it. -/
def IsLiteral (w : List Char) : Prop := ∀ t, afterLiteral? (w ++ t) = some t

theorem afterQuote?_cons {q c : Char} (hbackslash : c ≠ '\\') (cs : List Char) :
    afterQuote? q (c :: cs) = if c = q then some cs else afterQuote? q cs := by
  rw [afterQuote?]
  exact fun _ _ h _ => hbackslash h

theorem Escaped.afterQuote? {q : Char} {cs : List Char} (h : Escaped q cs) (hq : q ≠ '\\')
    (t : List Char) : afterQuote? q (cs ++ q :: t) = some t := by
  induction h with
  | nil => rw [List.nil_append, afterQuote?_cons hq, if_pos rfl]
  | plain quote backslash _ ih =>
    rw [List.cons_append, afterQuote?_cons backslash, if_neg quote, ih]
  | escape _ ih =>
    rw [List.cons_append, List.cons_append, Text.afterQuote?, ih]

/-! ## Quoted texts -/

/-- A quoted text ends at its last character. -/
theorem isLiteral_quoteChars (cs : List Char) : IsLiteral (quoteChars cs) := by
  intro t
  have hend := (escaped_flatMap_quoteChar cs).afterQuote? (by decide) t
  rw [quoteChars, List.cons_append, List.append_assoc, List.singleton_append, afterLiteral?, hend]

theorem unquoted_quoteChars (cs : List Char) : unquoted (quoteChars cs) = cs.flatMap quoteChar := by
  rw [quoteChars, unquoted, List.getLast?_concat, List.dropLast_concat]
  rfl

theorem toList_quote (s : String) : (quote s).toList = quoteChars s.toList :=
  String.toList_ofList

theorem stringValue_quote (s : String) : stringValue (quote s) = s := by
  rw [stringValue, toList_quote, unquoted_quoteChars,
    cookFrom_of_spells (spells_flatMap_quoteChar s.toList), String.ofList_toList]

/-! ## The code outside of literals -/

/-- What a text has outside of literals, and the quotes of these.  The literal that it starts
inside of, if any, is opened by the given character. -/
def outside : Option Char → List Char → List Char
  | _, [] => []
  | none, c :: cs => c :: outside (if isDelimiter c then some c else none) cs
  | some q, '\\' :: _ :: cs => outside (some q) cs
  | some q, c :: cs => if c = q then c :: outside none cs else outside (some q) cs

/-- The text leaves no literal open: what follows it is not inside of one. -/
def Closed (x : List Char) : Prop := ∀ t, outside none (x ++ t) = outside none x ++ outside none t

theorem outside_code {c : Char} (h : isDelimiter c = false) (cs : List Char) :
    outside none (c :: cs) = c :: outside none cs := by
  rw [outside, h, if_neg Bool.false_ne_true]

theorem outside_of_afterQuote? {q : Char} {x t : List Char} (h : afterQuote? q x = some t) :
    outside (some q) x = q :: outside none t := by
  induction x using afterQuote?.induct q with
  | case1 => cases h
  | case2 _ cs ih => exact ih h
  | case3 cs hescape =>
    rw [afterQuote?, if_pos rfl] at h
    · rw [outside, if_pos rfl, Option.some.inj h]
      exact hescape
    · exact hescape
  | case4 c cs hescape hquote ih =>
    rw [afterQuote?, if_neg hquote] at h
    · rw [outside, if_neg hquote, ih h]
      exact hescape
    · exact hescape

theorem outside_quoted {q : Char} {inner : List Char} (hq : isDelimiter q = true)
    (h : Escaped q inner) (t : List Char) :
    outside none (q :: (inner ++ q :: t)) = q :: q :: outside none t := by
  have hend := h.afterQuote? (isDelimiter_ne_backslash hq) t
  rw [Text.outside, hq, if_pos rfl, outside_of_afterQuote? hend]

theorem Literal.closed {x : List Char} (h : Literal x) : Closed x := by
  cases h with
  | mk delimiter escaped =>
    intro t
    rw [outside_quoted delimiter escaped, List.cons_append, List.append_assoc,
      List.singleton_append, outside_quoted delimiter escaped]
    rfl

theorem Balanced.closed {x : List Char} (h : Balanced x) : Closed x := by
  induction h with
  | nil => exact fun _ => rfl
  | plain delimiter _ _ _ ih =>
    intro t
    rw [List.cons_append, outside_code delimiter, outside_code delimiter, ih, List.cons_append]
  | quoted delimiter escaped _ ih =>
    intro t
    rw [List.cons_append, List.append_assoc, List.cons_append, outside_quoted delimiter escaped,
      outside_quoted delimiter escaped, ih, List.cons_append, List.cons_append]
  | @bracketed o c inner cs opening _ closing _ ihinner ih =>
    intro t
    have hopening := isDelimiter_of_isOpening opening
    have hclosing := isDelimiter_of_isClosing closing
    rw [List.cons_append, List.append_assoc, List.cons_append, outside_code hopening,
      outside_code hopening, ihinner, ihinner (c :: cs), outside_code hclosing,
      outside_code hclosing, ih]
    simp only [List.cons_append, List.append_assoc]

theorem IsLiteral.outside {w : List Char} (h : IsLiteral w) (t : List Char) :
    outside none (w ++ t) = '"' :: '"' :: outside none t := by
  have hend := h t
  -- What `w` looks like does not matter, only where the scan of the whole text ends.
  generalize w ++ t = x at hend
  cases x with
  | nil => cases hend
  | cons c cs =>
    by_cases hc : c = '"'
    · subst hc
      have hquote : isDelimiter '"' = true := rfl
      rw [Text.outside, hquote, if_pos rfl, outside_of_afterQuote? hend]
    · rw [afterLiteral?] at hend
      · cases hend
      · exact fun _ h => hc (List.cons.inj h).1

/-- The codes are the same, but for what stands between the quotes of literals.  They have in
common characters that are no quotes, and the texts that are kept as they are. -/
inductive SameOutside (kept : List Char → Prop) : List Char → List Char → Prop
  | nil : SameOutside kept [] []
  | code {c : Char} {x y : List Char} (plain : isDelimiter c = false)
      (rest : SameOutside kept x y) : SameOutside kept (c :: x) (c :: y)
  | kept {w x y : List Char} (same : kept w) (rest : SameOutside kept x y) :
    SameOutside kept (w ++ x) (w ++ y)
  | literal {v w x y : List Char} (left : IsLiteral v) (right : IsLiteral w)
      (rest : SameOutside kept x y) : SameOutside kept (v ++ x) (w ++ y)

namespace SameOutside

variable {kept : List Char → Prop} {v w x y : List Char}

theorem append (h : SameOutside kept v w) (hrest : SameOutside kept x y) :
    SameOutside kept (v ++ x) (w ++ y) := by
  induction h with
  | nil => exact hrest
  | code plain _ ih => exact .code plain ih
  | kept same _ ih =>
    rw [List.append_assoc, List.append_assoc]
    exact .kept same ih
  | literal left right _ ih =>
    rw [List.append_assoc, List.append_assoc]
    exact .literal left right ih

theorem append_toList {s t u v : String} (h : SameOutside kept s.toList t.toList)
    (hrest : SameOutside kept u.toList v.toList) :
    SameOutside kept (s ++ u).toList (t ++ v).toList := by
  rw [String.toList_append, String.toList_append]
  exact h.append hrest

theorem of_plain (h : x.any isDelimiter = false) : SameOutside kept x x := by
  induction x with
  | nil => exact .nil
  | cons c x ih =>
    rw [List.any_cons, Bool.or_eq_false_iff] at h
    exact .code h.1 (ih h.2)

theorem of_kept (h : kept x) : SameOutside kept x x := by
  have hnil : SameOutside kept (x ++ []) (x ++ []) := .kept h .nil
  rwa [List.append_nil] at hnil

theorem quoteChars (cs ds : List Char) :
    SameOutside kept (Text.quoteChars cs) (Text.quoteChars ds) := by
  have h : SameOutside kept (Text.quoteChars cs ++ []) (Text.quoteChars ds ++ []) :=
    .literal (isLiteral_quoteChars cs) (isLiteral_quoteChars ds) .nil
  rwa [List.append_nil, List.append_nil] at h

/-- If the texts that are kept leave no literal open, what is outside of literals is the same. -/
theorem outside_eq (h : SameOutside kept x y) (hkept : ∀ w, kept w → Closed w) :
    outside none x = outside none y := by
  induction h with
  | nil => rfl
  | code plain _ ih => rw [outside_code plain, outside_code plain, ih]
  | kept same _ ih => rw [hkept _ same, hkept _ same, ih]
  | literal left right _ ih => rw [left.outside, right.outside, ih]

end SameOutside

end Text
end Reify
