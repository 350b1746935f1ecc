/-
Glob patterns over path text.

`?` stands for one character and `*` for any text, slashes included.  A class in brackets
stands for one character in it, or not in it after `!`.  `**` fills a whole path step and
stands for nothing, for any text that ends in a slash, or for all the rest of the path.
Everything else stands for itself.
-/

namespace Reify
namespace Glob

structure CharRange where
  first : Char
  last : Char
  deriving DecidableEq, Repr

inductive Token
  | char (c : Char)
  | anyChar
  | anyText
  | anySteps
  | within (ranges : List CharRange)
  | except (ranges : List CharRange)
  deriving DecidableEq, Repr

structure PatternError where
  position : Nat
  reason : String
  deriving DecidableEq, Repr

def PatternError.message (e : PatternError) : String :=
  "Pattern syntax error near position " ++ Nat.repr e.position ++ ": " ++ e.reason

def wildcardRun (position : Nat) : PatternError :=
  ⟨position, "wildcards are either regular `*` or recursive `**`"⟩

def partialStep (position : Nat) : PatternError :=
  ⟨position, "recursive wildcards must form a single path component"⟩

def invalidClass (position : Nat) : PatternError := ⟨position, "invalid range pattern"⟩

/-! ## Compilation -/

def ranges : List Char → List CharRange
  | a :: '-' :: b :: cs => ⟨a, b⟩ :: ranges cs
  | c :: cs => ⟨c, c⟩ :: ranges cs
  | [] => []

/-- The text of a class that begins with `c`, up to the next closing bracket, which may not
be `c` itself. -/
def classText? (c : Char) (cs : List Char) : Option (List Char) :=
  let more := cs.takeWhile (· ≠ ']')
  if more.length < cs.length then some (c :: more) else none

/-- The class written after an opening bracket at `i`, and how many characters write it. -/
def charClass (i : Nat) : List Char → Except PatternError (Token × Nat)
  | '!' :: c :: cs =>
    match classText? c cs with
    | some text => .ok (.except (ranges text), text.length + 2)
    | none => .error (invalidClass i)
  | '!' :: [] => .error (invalidClass i)
  | c :: cs =>
    match classText? c cs with
    | some text => .ok (.within (ranges text), text.length + 1)
    | none => .error (invalidClass i)
  | [] => .error (invalidClass i)

def opensStep (before : Option Char) : Bool := before == none || before == some '/'

/-- The token that begins with an asterisk at `i` and goes on with `cs`, and how much of `cs`
belongs to it. -/
def wildcard (i : Nat) (before : Option Char) :
    List Char → Except PatternError (Token × Nat)
  | '*' :: '*' :: _ => .error (wildcardRun (i + 2))
  | '*' :: cs =>
    if opensStep before then
      match cs with
      | '/' :: _ => .ok (.anySteps, 2)
      | [] => .ok (.anySteps, 1)
      | _ => .error (partialStep (i + 2))
    else .error (partialStep (i - 1))
  | _ => .ok (.anyText, 0)

def token (i : Nat) (before : Option Char) (c : Char) (cs : List Char) :
    Except PatternError (Token × Nat) :=
  match c with
  | '?' => .ok (.anyChar, 0)
  | '*' => wildcard i before cs
  | '[' => charClass i cs
  | c => .ok (.char c, 0)

/-- The tokens from character `i` on, after `skip` more characters. -/
def compileFrom (i : Nat) (before : Option Char) (skip : Nat) :
    List Char → Except PatternError (List Token)
  | [] => .ok []
  | c :: cs =>
    match skip with
    | skip + 1 => compileFrom (i + 1) (some c) skip cs
    | 0 => do
      let (t, used) ← token i before c cs
      return t :: (← compileFrom (i + 1) (some c) used cs)

def compile (pattern : String) : Except PatternError (List Token) :=
  compileFrom 0 none 0 pattern.toList

/-! ## Matching -/

def CharRange.contains (r : CharRange) (c : Char) : Bool := r.first ≤ c && c ≤ r.last

def someEnd (p : List Char → Bool) : List Char → Bool
  | [] => p []
  | c :: cs => p (c :: cs) || someEnd p cs

theorem someEnd_eq_true_iff {p : List Char → Bool} {cs : List Char} :
    someEnd p cs = true ↔ ∃ as bs, cs = as ++ bs ∧ p bs = true := by
  induction cs with
  | nil =>
    refine ⟨fun h => ⟨[], [], rfl, h⟩, fun ⟨as, bs, h, hp⟩ => ?_⟩
    obtain ⟨rfl, rfl⟩ := List.append_eq_nil_iff.mp h.symm
    exact hp
  | cons c cs ih =>
    rw [someEnd, Bool.or_eq_true, ih]
    constructor
    · rintro (h | ⟨as, bs, rfl, hp⟩)
      · exact ⟨[], c :: cs, rfl, h⟩
      · exact ⟨c :: as, bs, rfl, hp⟩
    · rintro ⟨as, bs, h, hp⟩
      cases as with
      | nil => exact .inl (h ▸ hp)
      | cons a as => exact .inr ⟨as, bs, (List.cons.inj h).2, hp⟩

/-- Whether `p` holds of what follows some slash, or of nothing. -/
def someStep (p : List Char → Bool) : List Char → Bool
  | [] => p []
  | c :: cs => (c == '/' && p cs) || someStep p cs

def isMatch : List Token → List Char → Bool
  | [], cs => cs.isEmpty
  | .anyText :: ts, cs => someEnd (isMatch ts) cs
  | .anySteps :: ts, cs => isMatch ts cs || someStep (isMatch ts) cs
  | _ :: _, [] => false
  | .char d :: ts, c :: cs => c == d && isMatch ts cs
  | .anyChar :: ts, _ :: cs => isMatch ts cs
  | .within rs :: ts, c :: cs => rs.any (·.contains c) && isMatch ts cs
  | .except rs :: ts, c :: cs => !rs.any (·.contains c) && isMatch ts cs

/-! ## Rows

Trying every end of the text for every asterisk takes too long.  `row` asks of all ends of the
text at once whether the tokens match them, token by token from the last. -/

def rowOfOne (p : Char → Bool) : List Char → List Bool → List Bool
  | c :: cs, _ :: row => (p c && row.headD false) :: rowOfOne p cs row
  | _, _ => [false]

def rowOfText : List Bool → List Bool
  | [] => []
  | b :: row =>
    let later := rowOfText row
    (b || later.headD false) :: later

/-- For each end of the text, whether a slash in it or its own end leads to a match. -/
def rowAfterSlash : List Char → List Bool → List Bool
  | c :: cs, _ :: row =>
    let later := rowAfterSlash cs row
    ((c == '/' && row.headD false) || later.headD false) :: later
  | _, row => row

/-- Whether the tokens match each end of the text, from the whole text to the empty one. -/
def row : List Token → List Char → List Bool
  | [], cs => cs.map (fun _ => false) ++ [true]
  | .anyText :: ts, cs => rowOfText (row ts cs)
  | .anySteps :: ts, cs =>
    let next := row ts cs
    List.zipWith or next (rowAfterSlash cs next)
  | .char d :: ts, cs => rowOfOne (· == d) cs (row ts cs)
  | .anyChar :: ts, cs => rowOfOne (fun _ => true) cs (row ts cs)
  | .within rs :: ts, cs => rowOfOne (fun c => rs.any (·.contains c)) cs (row ts cs)
  | .except rs :: ts, cs => rowOfOne (fun c => !rs.any (·.contains c)) cs (row ts cs)

def accepts (ts : List Token) (cs : List Char) : Bool := (row ts cs).headD false

theorem row_nil (ts : List Token) : row ts [] = [isMatch ts []] := by
  induction ts with
  | nil => rfl
  | cons t ts ih =>
    cases t <;> simp [row, ih, rowOfOne, rowOfText, rowAfterSlash, isMatch, someEnd, someStep]

theorem headD_row {p : List Char → Bool} {r : List Char → List Bool}
    (hnil : r [] = [p []]) (hcons : ∀ c cs, r (c :: cs) = p (c :: cs) :: r cs) (cs : List Char) :
    (r cs).headD false = p cs := by
  cases cs with
  | nil => rw [hnil]; rfl
  | cons c cs => rw [hcons]; rfl

theorem headD_rowOfText {p : List Char → Bool} {r : List Char → List Bool}
    (hnil : r [] = [p []]) (hcons : ∀ c cs, r (c :: cs) = p (c :: cs) :: r cs) (cs : List Char) :
    (rowOfText (r cs)).headD false = someEnd p cs := by
  induction cs with
  | nil => rw [hnil]; simp [rowOfText, someEnd]
  | cons c cs ih => rw [hcons, rowOfText, someEnd, List.headD_cons, ih]

theorem headD_rowAfterSlash {p : List Char → Bool} {r : List Char → List Bool}
    (hnil : r [] = [p []]) (hcons : ∀ c cs, r (c :: cs) = p (c :: cs) :: r cs) (cs : List Char) :
    (rowAfterSlash cs (r cs)).headD false = someStep p cs := by
  induction cs with
  | nil => rw [hnil]; rfl
  | cons c cs ih =>
    rw [hcons, rowAfterSlash, someStep, List.headD_cons, ih, headD_row hnil hcons]

/-- A row starts with the answer for the whole text and goes on with the row of what follows its
first character. -/
theorem row_cons (ts : List Token) (c : Char) (cs : List Char) :
    row ts (c :: cs) = isMatch ts (c :: cs) :: row ts cs := by
  induction ts generalizing c cs with
  | nil => rfl
  | cons t ts ih =>
    have hhead := headD_row (row_nil ts) ih cs
    cases t with
    | anyText =>
      have htext := headD_rowOfText (row_nil ts) ih cs
      simp only [row, ih, rowOfText, isMatch, someEnd, htext]
    | anySteps =>
      have hstep := headD_rowAfterSlash (row_nil ts) ih cs
      simp only [row, ih, rowAfterSlash, isMatch, someStep, hstep, hhead, List.zipWith_cons_cons]
    | char d => simp only [row, ih, rowOfOne, isMatch, hhead]
    | anyChar => simp only [row, ih, rowOfOne, isMatch, hhead, Bool.true_and]
    | within rs => simp only [row, ih, rowOfOne, isMatch, hhead]
    | except rs => simp only [row, ih, rowOfOne, isMatch, hhead]

theorem accepts_eq_isMatch (ts : List Token) (cs : List Char) : accepts ts cs = isMatch ts cs :=
  headD_row (row_nil ts) (row_cons ts) cs

end Glob
end Reify
