/-
The import of an accepted configuration.

An import line is read as module code reads it: as tokens, with names that are as long as they
can be and string literals that denote their texts (`Reads`).  A text is read in at most one way
(`Reads.unique`), and the import line of every accepted configuration is read as the declaration
of a namespace import, of the configured module under the configured name (`reads_importLine`).
Whether it is such a declaration depends on the whole name, and the check of its characters does
not see that: module code reserves some names, and forbids to bind some others.
-/
import Reify.Config
import Reify.Proofs.Text.Closing

namespace Reify

/-! ## Accepted configurations -/

theorem Config.validate_eq_ok_iff {c : Config} {e : Exclusions} :
    c.validate = .ok e ↔ Config.isIdentifier c.library.binding = true ∧
      c.library.specifier ≠ "" ∧ Config.compilePatterns c.exclude = .ok e := by
  unfold Config.validate
  cases Config.isIdentifier c.library.binding with
  | false => simp
  | true =>
    by_cases hspecifier : c.library.specifier = ""
    · simp [hspecifier]
    · simp [hspecifier]

namespace Import

/-! ## Names -/

def isNameChar (c : Char) : Bool := c.isAlpha || c.isDigit || c == '_' || c == '$'

/-- The text is an identifier of ASCII characters. -/
structure IsName (text : String) : Prop where
  nonempty : text ≠ ""
  plain : ∀ c ∈ text.toList, isNameChar c = true
  no_digit : ∀ c ∈ text.toList.head?, c.isDigit = false

def reservedNames : List String :=
  ["await", "break", "case", "catch", "class", "const", "continue", "debugger", "default",
    "delete", "do", "else", "enum", "export", "extends", "false", "finally", "for", "function",
    "if", "implements", "import", "in", "instanceof", "interface", "let", "new", "null",
    "package", "private", "protected", "public", "return", "static", "super", "switch", "this",
    "throw", "true", "try", "typeof", "var", "void", "while", "with", "yield"]

/-- The names that module code may use, but forbids to bind. -/
def fixedNames : List String := ["arguments", "eval"]

structure Bindable (name : String) : Prop where
  identifier : IsName name
  unreserved : name ∉ reservedNames
  unfixed : name ∉ fixedNames

theorem not_isDigit_of_isAlpha {c : Char} (h : c.isAlpha = true) : c.isDigit = false := by
  have hletter : 'A'.toNat ≤ c.toNat := by
    rcases (Bool.or_eq_true _ _).mp h with hupper | hlower
    · exact UInt32.le_iff_toNat_le.mp (of_decide_eq_true hupper).1
    · obtain ⟨hlow, -⟩ := (Bool.and_eq_true _ _).mp hlower
      have ha : 'a'.toNat ≤ c.toNat := UInt32.le_iff_toNat_le.mp (of_decide_eq_true hlow)
      exact Nat.le_trans (by decide) ha
  rw [← Bool.not_eq_true, Char.isDigit_iff_toNat]
  rintro ⟨-, hdigit⟩
  exact absurd (Nat.le_trans hletter hdigit) (by decide)

theorem opensIdentifier_iff {c : Char} :
    Config.opensIdentifier c = true ↔ isNameChar c = true ∧ c.isDigit = false := by
  cases hdigit : c.isDigit with
  | true =>
    have halpha : c.isAlpha ≠ true := by
      intro halpha
      rw [not_isDigit_of_isAlpha halpha] at hdigit
      cases hdigit
    have hunderscore : c ≠ '_' := by rintro rfl; cases hdigit
    have hdollar : c ≠ '$' := by rintro rfl; cases hdigit
    simp [Config.opensIdentifier, halpha, hunderscore, hdollar]
  | false => simp [Config.opensIdentifier, isNameChar, hdigit]

/-- The check of a binding accepts the ASCII identifiers, whether they are reserved or not. -/
theorem isIdentifier_iff {text : String} : Config.isIdentifier text = true ↔ IsName text := by
  have hrest (cs : List Char) : cs.all Config.continuesIdentifier = true ↔
      ∀ c ∈ cs, isNameChar c = true := List.all_eq_true
  unfold Config.isIdentifier
  cases htext : text.toList with
  | nil =>
    have hempty : text = "" := String.toList_eq_nil_iff.mp htext
    exact ⟨fun h => (Bool.false_ne_true h).elim, fun h => absurd hempty h.nonempty⟩
  | cons c cs =>
    rw [Bool.and_eq_true, opensIdentifier_iff, hrest]
    constructor
    · rintro ⟨⟨hc, hdigit⟩, hcs⟩
      refine ⟨?_, ?_, ?_⟩
      · rintro rfl
        cases htext
      · rw [htext]
        exact List.forall_mem_cons.mpr ⟨hc, hcs⟩
      · rw [htext]
        rintro d ⟨⟩
        exact hdigit
    · rintro ⟨-, plain, no_digit⟩
      rw [htext] at plain no_digit
      obtain ⟨hc, hcs⟩ := List.forall_mem_cons.mp plain
      exact ⟨⟨hc, no_digit c rfl⟩, hcs⟩

/-! ## Tokens -/

inductive Token
  | name (text : String)
  | mark (c : Char)
  | string (value : String)
  deriving DecidableEq, Repr

/-- The ways of writing a token. -/
inductive Token.Written : Token → List Char → Prop
  | name {text : String} (h : IsName text) : Written (.name text) text.toList
  | mark {c : Char} (h : c = '*' ∨ c = ';') : Written (.mark c) [c]
  | string {value : String} {w : List Char} (h : Text.Denotes value.toList w) :
    Written (.string value) w

/-- A name ends where it does not go on. -/
def Token.Ends : Token → List Char → Prop
  | .name _, rest => ∀ c ∈ rest.head?, isNameChar c = false
  | .mark _, _ | .string _, _ => True

/-- The text consists of the tokens, with blanks anywhere between. -/
inductive Reads : List Char → List Token → Prop
  | nil : Reads [] []
  | blank {cs : List Char} {ts : List Token} (rest : Reads cs ts) : Reads (' ' :: cs) ts
  | token {t : Token} {w cs : List Char} {ts : List Token} (written : t.Written w)
      (ends : t.Ends cs) (rest : Reads cs ts) : Reads (w ++ cs) (t :: ts)

/-! ## One reading -/

inductive TokenSort
  | name | mark | string

def Token.sort : Token → TokenSort
  | name _ => .name
  | mark _ => .mark
  | string _ => .string

def sort? (c : Char) : Option TokenSort :=
  if isNameChar c then some .name
  else if c == '*' || c == ';' then some .mark
  else if Text.isQuote c then some .string
  else none

namespace Token.Written

variable {t u : Token} {v w r s : List Char}

theorem starts (h : t.Written w) : ∃ c cs, w = c :: cs ∧ sort? c = some t.sort := by
  cases h with
  | @name text hname =>
    cases htext : text.toList with
    | nil => exact absurd (String.toList_eq_nil_iff.mp htext) hname.nonempty
    | cons c cs =>
      have hc := hname.plain c (htext ▸ List.mem_cons_self)
      exact ⟨c, cs, rfl, if_pos hc⟩
  | mark hmark => rcases hmark with rfl | rfl <;> exact ⟨_, [], rfl, rfl⟩
  | string hdenotes =>
    obtain ⟨quote, -, -, -⟩ := hdenotes
    rw [Text.isQuote, Bool.or_eq_true, beq_iff_eq, beq_iff_eq] at quote
    rcases quote with rfl | rfl <;> exact ⟨_, _, rfl, rfl⟩

theorem append_ne_nil (h : t.Written w) : w ++ r ≠ [] := by
  obtain ⟨c, cs, rfl, -⟩ := h.starts
  exact List.cons_ne_nil c _

theorem append_ne_blank (h : t.Written w) : w ++ r ≠ ' ' :: s := by
  obtain ⟨c, cs, rfl, hsort⟩ := h.starts
  intro heq
  obtain ⟨rfl, -⟩ := List.cons.inj heq
  cases hsort

/-- Tokens that begin one text are of one sort. -/
theorem sort_eq (ht : t.Written v) (hu : u.Written w) (h : v ++ r = w ++ s) :
    t.sort = u.sort := by
  obtain ⟨c, cs, rfl, hc⟩ := ht.starts
  obtain ⟨d, ds, rfl, hd⟩ := hu.starts
  obtain ⟨rfl, -⟩ := List.cons.inj h
  exact Option.some.inj (hc.symm.trans hd)

/-- The first token of a text can be told, and so can its end. -/
theorem append_inj (ht : t.Written v) (hu : u.Written w) (hr : t.Ends r) (hs : u.Ends s)
    (h : v ++ r = w ++ s) : t = u ∧ r = s := by
  have hsort := ht.sort_eq hu h
  cases ht with
  | name hname =>
    cases hu with
    | name hname' =>
      obtain ⟨htext, hrest⟩ := Text.run_append_inj hname.plain hname'.plain hr hs h
      exact ⟨congrArg Token.name (String.toList_inj.mp htext), hrest⟩
    | mark => cases hsort
    | string => cases hsort
  | mark =>
    cases hu with
    | name => cases hsort
    | mark =>
      obtain ⟨rfl, hrest⟩ := List.cons.inj h
      exact ⟨rfl, hrest⟩
    | string => cases hsort
  | string hdenotes =>
    cases hu with
    | name => cases hsort
    | mark => cases hsort
    | string hdenotes' =>
      obtain ⟨hvalue, hrest⟩ := hdenotes.append_inj hdenotes' h
      exact ⟨congrArg Token.string (String.toList_inj.mp hvalue), hrest⟩

end Token.Written

namespace Reads

theorem of_nil {ts : List Token} (h : Reads [] ts) : ts = [] := by
  generalize hx : ([] : List Char) = x at h
  cases h with
  | nil => rfl
  | blank => cases hx
  | token written => exact absurd hx.symm written.append_ne_nil

theorem of_blank {cs : List Char} {ts : List Token} (h : Reads (' ' :: cs) ts) : Reads cs ts := by
  generalize hx : ' ' :: cs = x at h
  cases h with
  | nil => cases hx
  | blank rest => exact (List.cons.inj hx).2 ▸ rest
  | token written => exact absurd hx.symm written.append_ne_blank

theorem of_token {t : Token} {w cs : List Char} {us : List Token} (written : t.Written w)
    (ends : t.Ends cs) (h : Reads (w ++ cs) us) : ∃ ts, us = t :: ts ∧ Reads cs ts := by
  generalize hx : w ++ cs = x at h
  cases h with
  | nil => exact absurd hx written.append_ne_nil
  | blank => exact absurd hx written.append_ne_blank
  | token written' ends' rest =>
    obtain ⟨rfl, rfl⟩ := written.append_inj written' ends ends' hx
    exact ⟨_, rfl, rest⟩

/-- A text is read in at most one way. -/
theorem unique {cs : List Char} {ts us : List Token} (h : Reads cs ts) (h' : Reads cs us) :
    ts = us := by
  induction h generalizing us with
  | nil => exact h'.of_nil.symm
  | blank _ ih => exact ih h'.of_blank
  | token written ends _ ih =>
    obtain ⟨us, rfl, hrest⟩ := h'.of_token written ends
    rw [ih hrest]

end Reads

/-! ## The declaration -/

def declaration (binding specifier : String) : List Token :=
  [.name "import", .mark '*', .name "as", .name binding, .name "from", .string specifier,
    .mark ';']

/-- The text is a declaration that imports all of the module `specifier` as `binding`. -/
structure Declares (text : String) (binding specifier : String) : Prop where
  reads : Reads text.toList (declaration binding specifier)
  bindable : Bindable binding

theorem toList_importLine (l : NodeLibrary) :
    l.importLine.toList = "import * as ".toList ++ (l.binding.toList ++
      (" from ".toList ++ (Text.quoteChars l.specifier.toList ++ ";".toList))) := by
  unfold NodeLibrary.importLine
  rw [String.toList_append, String.toList_append, String.toList_append, String.toList_append,
    Text.toList_quote, List.append_assoc, List.append_assoc, List.append_assoc]

theorem reads_importLine {l : NodeLibrary} (h : IsName l.binding) :
    Reads l.importLine.toList (declaration l.binding l.specifier) := by
  have himport : IsName "import" := isIdentifier_iff.mp rfl
  have has : IsName "as" := isIdentifier_iff.mp rfl
  have hfrom : IsName "from" := isIdentifier_iff.mp rfl
  have hblank (cs : List Char) : ∀ c ∈ (' ' :: cs).head?, isNameChar c = false := by
    rintro c ⟨⟩
    rfl
  rw [toList_importLine]
  -- The text once more, cut where its tokens begin and end.
  show Reads ("import".toList ++ ' ' :: (['*'] ++ ' ' :: ("as".toList ++ ' ' ::
    (l.binding.toList ++ ' ' :: ("from".toList ++ ' ' :: (Text.quoteChars l.specifier.toList ++
      ([';'] ++ []))))))) _
  refine .token (.name himport) (hblank _) (.blank ?_)
  refine .token (.mark (.inl rfl)) trivial (.blank ?_)
  refine .token (.name has) (hblank _) (.blank ?_)
  refine .token (.name h) (hblank _) (.blank ?_)
  refine .token (.name hfrom) (hblank _) (.blank ?_)
  refine .token (.string (Text.denotes_quoteChars _)) trivial ?_
  exact .token (.mark (.inr rfl)) trivial .nil

/-- If the configuration is accepted, its binding is an identifier that starts with no digit, and
its specifier is not empty.  The import line is then a declaration if and only if module code
neither reserves the binding nor forbids to bind it, and it can only declare that the configured
module is imported under the configured name. -/
theorem accepted_declares_iff {c : Config} {e : Exclusions} (h : c.validate = .ok e) :
    IsName c.library.binding ∧ c.library.specifier ≠ "" ∧
      ∀ binding specifier, Declares c.library.importLine binding specifier ↔
        binding = c.library.binding ∧ specifier = c.library.specifier ∧
          c.library.binding ∉ reservedNames ∧ c.library.binding ∉ fixedNames := by
  obtain ⟨hidentifier, hspecifier, -⟩ := Config.validate_eq_ok_iff.mp h
  have hname := isIdentifier_iff.mp hidentifier
  have hreads := reads_importLine hname
  refine ⟨hname, hspecifier, fun binding specifier => ⟨?_, ?_⟩⟩
  · rintro ⟨reads, bindable⟩
    -- There is one reading, so what it declares is what is configured.
    have htokens := reads.unique hreads
    simp only [declaration, List.cons.injEq, Token.name.injEq, Token.string.injEq, true_and,
      and_true] at htokens
    obtain ⟨rfl, rfl⟩ := htokens
    exact ⟨rfl, rfl, bindable.unreserved, bindable.unfixed⟩
  · rintro ⟨rfl, rfl, hreserved, hfixed⟩
    exact ⟨hreads, hname, hreserved, hfixed⟩

/-- The default configuration imports the library; one whose binding is the name `class`, which
is reserved, is accepted too, and its import line declares nothing. -/
theorem classBinding_declares_nothing :
    (Config.validate ⟨[], {}⟩ = .ok [] ∧
      Declares (NodeLibrary.importLine {}) "$ir" "refract/ir") ∧
    (Config.validate ⟨[], ⟨"class", "refract/ir"⟩⟩ = .ok [] ∧
      ∀ binding specifier,
        ¬ Declares (NodeLibrary.importLine ⟨"class", "refract/ir"⟩) binding specifier) := by
  have hdefault : Config.validate ⟨[], {}⟩ = .ok [] := rfl
  have hclass : Config.validate ⟨[], ⟨"class", "refract/ir"⟩⟩ = .ok [] := rfl
  have hfree : "$ir" ∉ reservedNames ∧ "$ir" ∉ fixedNames := by decide
  refine ⟨⟨hdefault, ?_⟩, hclass, fun binding specifier hdeclares => ?_⟩
  · exact ((accepted_declares_iff hdefault).2.2 _ _).mpr ⟨rfl, rfl, hfree⟩
  · have hbindable := ((accepted_declares_iff hclass).2.2 _ _).mp hdeclares
    exact hbindable.2.2.1 (by decide)

end Import
end Reify
