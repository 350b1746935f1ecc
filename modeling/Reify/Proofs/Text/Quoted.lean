/-
Quoted text is read back as it was.

What is written for a character between quotes spells it (`spelling_quoteChar`), and there are
no other quotes, no open backslashes and no line breaks between the quotes.  So a quoted text is
a string literal that denotes the text (`denotes_quoteChars`).  A literal ends at its closing
quote and denotes one text (`Denotes.append_inj`), so quoted texts that begin alike are alike,
whatever follows them (`quoteChars_append_inj`).
-/
import Reify.Proofs.Text.Delimited
import Reify.Proofs.Text.Spelling

namespace Reify
namespace Text

/-! ## String literals -/

/-- A string literal on one line, in quotes of either kind, that denotes `value`. -/
inductive Denotes (value : List Char) : List Char → Prop
  | mk {q : Char} {inner : List Char} (quote : isQuote q = true) (escaped : Escaped q inner)
      (line : ∀ c ∈ inner, c ≠ '\n' ∧ c ≠ '\r') (spelled : Spells inner value) :
    Denotes value (q :: (inner ++ [q]))

theorem isQuote_ne_backslash {q : Char} (h : isQuote q = true) : q ≠ '\\' := by
  rintro rfl
  cases h

theorem Denotes.append_inj {value value' v w r s : List Char} (hv : Denotes value v)
    (hw : Denotes value' w) (h : v ++ r = w ++ s) : value = value' ∧ r = s := by
  obtain ⟨quote, escaped, -, spelled⟩ := hv
  obtain ⟨-, escaped', -, spelled'⟩ := hw
  have hq := isQuote_ne_backslash quote
  simp only [List.cons_append, List.append_assoc, List.nil_append, List.cons.injEq] at h
  obtain ⟨rfl, htail⟩ := h
  obtain ⟨rfl, hrest⟩ := escaped.append_inj hq escaped' htail
  refine ⟨?_, hrest⟩
  rw [← cookFrom_of_spells spelled, cookFrom_of_spells spelled']

/-! ## Quoted characters -/

theorem HexDigit.of_lt {n : Nat} (h : n < 16) : HexDigit (hexDigit n) n := by
  unfold hexDigit
  split
  · next hdecimal => exact .decimal hdecimal
  · next hdecimal =>
    have hletter : HexDigit (Char.ofNat (97 + (n - 10))) (10 + (n - 10)) := .lower (by omega)
    have hcode : 97 + (n - 10) = 87 + n := by omega
    have hvalue : 10 + (n - 10) = n := by omega
    rwa [hcode, hvalue] at hletter

/-- Two digits after two zeros write a number below 256. -/
theorem HexNumber.of_lt {n : Nat} (h : n < 256) :
    HexNumber ['0', '0', hexDigit (n / 16), hexDigit (n % 16)] n := by
  have hzero : HexDigit '0' 0 := .decimal (n := 0) (by decide)
  have hhigh := HexDigit.of_lt (n := n / 16) (by omega)
  have hlow := HexDigit.of_lt (n := n % 16) (by omega)
  have hnumber := HexNumber.snoc (.snoc (.snoc (.snoc .nil hzero) hzero) hhigh) hlow
  have hvalue : ((0 * 16 + 0) * 16 + 0) * 16 + n / 16 = n / 16 := by omega
  rwa [hvalue, Nat.div_add_mod'] at hnumber

/-- What is written for a character between quotes is a spelling of it. -/
theorem spelling_quoteChar (c : Char) (next : List Char) : Spelling c next (quoteChar c) := by
  unfold quoteChar
  split
  case h_1 | h_2 => exact .escaped rfl
  case h_8 _ hbackslash _ _ _ hreturn _ =>
    split
    · next hcontrol => exact .codePoint (.fixed (HexNumber.of_lt (by omega)) rfl)
    · exact .itself hbackslash hreturn
  all_goals exact .letter (by decide)

theorem spells_flatMap_quoteChar (cs : List Char) : Spells (cs.flatMap quoteChar) cs := by
  induction cs with
  | nil => exact .nil
  | cons c cs ih => exact .char (spelling_quoteChar c _) ih

theorem hexDigit_plain {n : Nat} (h : n < 16) :
    hexDigit n ≠ '"' ∧ hexDigit n ≠ '\\' ∧ 0x20 ≤ (hexDigit n).toNat := by
  have all : ∀ i : Fin 16, hexDigit i ≠ '"' ∧ hexDigit i ≠ '\\' ∧
      0x20 ≤ (hexDigit i).toNat := by decide
  exact all ⟨n, h⟩

theorem escaped_quoteChar (c : Char) {s : List Char} (hs : Escaped '"' s) :
    Escaped '"' (quoteChar c ++ s) := by
  unfold quoteChar
  split
  case h_8 hquote hbackslash _ _ _ _ _ =>
    split
    · next hcontrol =>
      have hhigh := hexDigit_plain (n := c.toNat / 16) (by omega)
      have hlow := hexDigit_plain (n := c.toNat % 16) (by omega)
      exact .escape (.plain (by decide) (by decide) (.plain (by decide) (by decide)
        (.plain hhigh.1 hhigh.2.1 (.plain hlow.1 hlow.2.1 hs))))
    · exact .plain hquote hbackslash hs
  all_goals exact .escape hs

theorem escaped_flatMap_quoteChar (cs : List Char) : Escaped '"' (cs.flatMap quoteChar) := by
  induction cs with
  | nil => exact .nil
  | cons c cs ih => exact escaped_quoteChar c ih

theorem le_toNat_of_mem_quoteChar {c d : Char} (h : d ∈ quoteChar c) : 0x20 ≤ d.toNat := by
  unfold quoteChar at h
  split at h
  case h_8 =>
    split at h
    · next hcontrol =>
      have hhigh := (hexDigit_plain (n := c.toNat / 16) (by omega)).2.2
      have hlow := (hexDigit_plain (n := c.toNat % 16) (by omega)).2.2
      simp only [List.mem_cons, List.not_mem_nil, or_false] at h
      rcases h with rfl | rfl | rfl | rfl | rfl | rfl
      · decide
      · decide
      · decide
      · decide
      · exact hhigh
      · exact hlow
    · next hplain =>
      rw [List.mem_singleton.mp h]
      omega
  all_goals
    simp only [List.mem_cons, List.not_mem_nil, or_false] at h
    rcases h with rfl | rfl <;> decide

theorem le_toNat_of_mem_quoteChars {cs : List Char} {d : Char} (h : d ∈ quoteChars cs) :
    0x20 ≤ d.toNat := by
  rw [quoteChars, List.mem_cons, List.mem_append, List.mem_flatMap, List.mem_singleton] at h
  rcases h with rfl | ⟨c, -, hd⟩ | rfl
  · decide
  · exact le_toNat_of_mem_quoteChar hd
  · decide

/-! ## Quoted texts -/

/-- A quoted text is a literal that denotes the text. -/
theorem denotes_quoteChars (cs : List Char) : Denotes cs (quoteChars cs) := by
  refine .mk rfl (escaped_flatMap_quoteChar cs) ?_ (spells_flatMap_quoteChar cs)
  intro c hc
  obtain ⟨d, -, hd⟩ := List.mem_flatMap.mp hc
  have hplain := le_toNat_of_mem_quoteChar hd
  constructor
  · rintro rfl
    exact absurd hplain (by decide)
  · rintro rfl
    exact absurd hplain (by decide)

theorem quoteChars_append_inj {cs ds s t : List Char}
    (h : quoteChars cs ++ s = quoteChars ds ++ t) : cs = ds ∧ s = t :=
  (denotes_quoteChars cs).append_inj (denotes_quoteChars ds) h

end Text
end Reify
