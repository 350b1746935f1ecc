/-
Slash-separated paths.

A path is kept as it was written; its steps leave out empty pieces and every `.`.
-/

namespace Reify

structure Path where
  text : String
  deriving DecidableEq, Repr

namespace Path

def pieces : List Char → List (List Char)
  | [] => [[]]
  | c :: cs =>
    if c = '/' then [] :: pieces cs
    else
      match pieces cs with
      | piece :: rest => (c :: piece) :: rest
      | [] => [[c]]

theorem pieces_ne_nil (cs : List Char) : pieces cs ≠ [] := by
  cases cs with
  | nil => exact List.cons_ne_nil _ _
  | cons c cs =>
    rw [pieces]
    split
    · exact List.cons_ne_nil _ _
    · split <;> exact List.cons_ne_nil _ _

theorem pieces_append (as bs : List Char) :
    pieces (as ++ '/' :: bs) = pieces as ++ pieces bs := by
  induction as with
  | nil => rfl
  | cons a as ih =>
    rw [List.cons_append, pieces, ih, pieces]
    split
    · rfl
    · cases h : pieces as with
      | nil => exact absurd h (pieces_ne_nil as)
      | cons piece rest => rfl

def isAbsolute (p : Path) : Bool := p.text.toList.head? == some '/'

/-- The steps of a path, without the root. -/
def steps (p : Path) : List String :=
  ((pieces p.text.toList).filter (fun s => s ≠ [] && s ≠ ['.'])).map String.ofList

/-- The steps that are left when every climb takes back the step before it. -/
def settle (steps : List String) : List String :=
  steps.foldl (fun done step => if step = ".." then done.dropLast else done ++ [step]) []

def ofSteps (steps : List String) : Path := ⟨String.intercalate "/" steps⟩

/-- The last step, unless it climbs. -/
def fileName? (p : Path) : Option String :=
  match p.steps.getLast? with
  | some name => if name = ".." then none else some name
  | none => none

/-- What follows the last dot of a file name that has a dot after its first character. -/
def extensionOf? (name : List Char) : Option (List Char) :=
  let after := (name.reverse.takeWhile (· ≠ '.')).reverse
  if after.length + 1 < name.length then some after else none

def extension? (p : Path) : Option String := do
  (extensionOf? (← p.fileName?).toList).map String.ofList

def join (p q : Path) : Path :=
  if q.isAbsolute || p.text.isEmpty then q
  else if p.text.toList.getLast? == some '/' then ⟨p.text ++ q.text⟩
  else ⟨p.text ++ "/" ++ q.text⟩

/-! ## Order -/

/-- Whether the steps `s` come before the steps `t`: the first step that differs decides, and
what opens a sequence comes before it. -/
def precedes : List String → List String → Bool
  | _, [] => false
  | [], _ :: _ => true
  | s :: ss, t :: ts => s < t || s == t && precedes ss ts

def insert (s : List String) : List (List String) → List (List String)
  | [] => [s]
  | t :: ts => if precedes t s then t :: insert s ts else s :: t :: ts

def inOrder (found : List (List String)) : List (List String) := found.foldr insert []

theorem insert_perm (s : List String) (ts : List (List String)) :
    (insert s ts).Perm (s :: ts) := by
  induction ts with
  | nil => exact .refl _
  | cons t ts ih =>
    rw [insert]
    split
    · exact (ih.cons t).trans (.swap s t ts)
    · exact .refl _

theorem inOrder_perm (found : List (List String)) : (inOrder found).Perm found := by
  induction found with
  | nil => exact .refl _
  | cons s found ih => exact (insert_perm s (inOrder found)).trans (ih.cons s)

end Path
end Reify
