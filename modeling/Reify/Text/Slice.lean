/-
Cutting text by UTF-8 byte offsets.

Offsets into a source unit count bytes, so a cut is only possible where a character ends.
`slice?` answers `none` for every other pair of offsets: reversed, past the end, or inside a
character.
-/

namespace Reify
namespace Text

def byteLength : List Char → Nat
  | [] => 0
  | c :: cs => c.utf8Size + byteLength cs

/-- What follows the first `n` bytes, if a character ends there. -/
def dropBytes? : Nat → List Char → Option (List Char)
  | 0, cs => some cs
  | _ + 1, [] => none
  | n + 1, c :: cs =>
    if c.utf8Size ≤ n + 1 then dropBytes? (n + 1 - c.utf8Size) cs else none

/-- The first `n` bytes, if a character ends there. -/
def takeBytes? : Nat → List Char → Option (List Char)
  | 0, _ => some []
  | _ + 1, [] => none
  | n + 1, c :: cs =>
    if c.utf8Size ≤ n + 1 then (takeBytes? (n + 1 - c.utf8Size) cs).map (c :: ·) else none

/-- The characters between byte offsets `start` and `stop`. -/
def slice? (cs : List Char) (start stop : Nat) : Option (List Char) :=
  if start ≤ stop then (dropBytes? start cs).bind (takeBytes? (stop - start)) else none

@[simp] theorem byteLength_nil : byteLength [] = 0 := rfl

@[simp] theorem byteLength_cons (c : Char) (cs : List Char) :
    byteLength (c :: cs) = c.utf8Size + byteLength cs := rfl

@[simp] theorem byteLength_append (as bs : List Char) :
    byteLength (as ++ bs) = byteLength as + byteLength bs := by
  induction as with
  | nil => simp
  | cons a as ih => simp [ih, Nat.add_assoc]

theorem dropBytes?_append (as bs : List Char) :
    dropBytes? (byteLength as) (as ++ bs) = some bs := by
  induction as with
  | nil => cases bs <;> rfl
  | cons a as ih =>
    have ha := a.utf8Size_pos
    rw [List.cons_append, byteLength_cons]
    obtain ⟨k, hk⟩ : ∃ k, a.utf8Size + byteLength as = k + 1 :=
      ⟨a.utf8Size + byteLength as - 1, by omega⟩
    rw [hk, dropBytes?, if_pos (by omega), ← hk, Nat.add_sub_cancel_left, ih]

theorem takeBytes?_append (as bs : List Char) :
    takeBytes? (byteLength as) (as ++ bs) = some as := by
  induction as with
  | nil => cases bs <;> rfl
  | cons a as ih =>
    have ha := a.utf8Size_pos
    rw [List.cons_append, byteLength_cons]
    obtain ⟨k, hk⟩ : ∃ k, a.utf8Size + byteLength as = k + 1 :=
      ⟨a.utf8Size + byteLength as - 1, by omega⟩
    rw [hk, takeBytes?, if_pos (by omega), ← hk, Nat.add_sub_cancel_left, ih]
    rfl

/-- The slice between the end of `as` and the start of `cs` is what stands between them. -/
theorem slice?_append (as bs cs : List Char) :
    slice? (as ++ bs ++ cs) (byteLength as) (byteLength as + byteLength bs) = some bs := by
  rw [slice?, if_pos (Nat.le_add_right _ _), List.append_assoc, dropBytes?_append,
    Nat.add_sub_cancel_left]
  exact takeBytes?_append bs cs

end Text
end Reify
