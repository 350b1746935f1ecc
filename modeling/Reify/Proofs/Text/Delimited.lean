/-
Text whose end can be told.

A complete literal ends at its closing quote, and balanced text at the first bracket that closes
none of its own.  So two of them that are followed by anything, or by a closing bracket, and
make the same text are the same (`Literal.append_inj`, `Balanced.append_inj`).
-/
import Reify.Text.Quoted

namespace Reify
namespace Text

def isDelimiter (c : Char) : Bool := c == '"' || c == '\'' || c == '\x60'

def isOpening (c : Char) : Bool := c == '(' || c == '[' || c == '{'

def isClosing (c : Char) : Bool := c == ')' || c == ']' || c == '}'

/-- What may stand between two characters `q`: every inner `q` and every backslash is escaped. -/
inductive Escaped (q : Char) : List Char → Prop
  | nil : Escaped q []
  | plain {c cs} (quote : c ≠ q) (backslash : c ≠ '\\') (rest : Escaped q cs) :
    Escaped q (c :: cs)
  | escape {c cs} (rest : Escaped q cs) : Escaped q ('\\' :: c :: cs)

/-- A complete quoted literal, with the same character at both ends. -/
inductive Literal : List Char → Prop
  | mk {q cs} (delimiter : isDelimiter q = true) (inner : Escaped q cs) :
    Literal (q :: (cs ++ [q]))

/-- Text with every bracket closed, brackets inside complete quoted parts aside. -/
inductive Balanced : List Char → Prop
  | nil : Balanced []
  | plain {c cs} (delimiter : isDelimiter c = false) (opening : isOpening c = false)
      (closing : isClosing c = false) (rest : Balanced cs) : Balanced (c :: cs)
  | quoted {q inner cs} (delimiter : isDelimiter q = true) (escaped : Escaped q inner)
      (rest : Balanced cs) : Balanced (q :: (inner ++ q :: cs))
  | bracketed {o c inner cs} (opening : isOpening o = true) (balanced : Balanced inner)
      (closing : isClosing c = true) (rest : Balanced cs) : Balanced (o :: (inner ++ c :: cs))

theorem isDelimiter_ne_backslash {q : Char} (h : isDelimiter q = true) : q ≠ '\\' := by
  rintro rfl
  cases h

theorem isDelimiter_of_isOpening {c : Char} (h : isOpening c = true) : isDelimiter c = false := by
  simp only [isOpening, Bool.or_eq_true, beq_iff_eq] at h
  rcases h with (rfl | rfl) | rfl <;> rfl

theorem isDelimiter_of_isClosing {c : Char} (h : isClosing c = true) : isDelimiter c = false := by
  simp only [isClosing, Bool.or_eq_true, beq_iff_eq] at h
  rcases h with (rfl | rfl) | rfl <;> rfl

theorem isOpening_of_isClosing {c : Char} (h : isClosing c = true) : isOpening c = false := by
  simp only [isClosing, Bool.or_eq_true, beq_iff_eq] at h
  rcases h with (rfl | rfl) | rfl <;> rfl

theorem append_cons_inj {c : Char} {cs ds s t : List Char} (hcs : c ∉ cs) (hds : c ∉ ds)
    (h : cs ++ c :: s = ds ++ c :: t) : cs = ds ∧ s = t := by
  induction cs generalizing ds with
  | nil =>
    cases ds with
    | nil => exact ⟨rfl, (List.cons.inj h).2⟩
    | cons d ds => exact absurd (List.cons.inj h).1 (List.ne_of_not_mem_cons hds)
  | cons b cs ih =>
    cases ds with
    | nil => exact absurd (List.cons.inj h).1.symm (List.ne_of_not_mem_cons hcs)
    | cons d ds =>
      rw [List.cons_append, List.cons_append, List.cons.injEq] at h
      obtain ⟨rfl, htail⟩ := h
      obtain ⟨rfl, hst⟩ :=
        ih (List.not_mem_of_not_mem_cons hcs) (List.not_mem_of_not_mem_cons hds) htail
      exact ⟨rfl, hst⟩

theorem run_append_inj {p : Char → Bool} {cs ds s t : List Char} (hcs : ∀ c ∈ cs, p c = true)
    (hds : ∀ d ∈ ds, p d = true) (hs : ∀ c ∈ s.head?, p c = false)
    (ht : ∀ c ∈ t.head?, p c = false) (h : cs ++ s = ds ++ t) : cs = ds ∧ s = t := by
  have hstop {x : List Char} (hx : ∀ c ∈ x.head?, p c = false) : x.takeWhile p = [] := by
    cases x with
    | nil => rfl
    | cons c x => rw [List.takeWhile_cons, hx c rfl, if_neg Bool.false_ne_true]
  have hrun := congrArg (List.takeWhile p) h
  rw [List.takeWhile_append_of_pos hcs, List.takeWhile_append_of_pos hds, hstop hs, hstop ht,
    List.append_nil, List.append_nil] at hrun
  subst hrun
  exact ⟨rfl, List.append_cancel_left h⟩

theorem escaped_of_all {q : Char} {cs : List Char}
    (h : (cs.all fun c => c != q && c != '\\') = true) : Escaped q cs := by
  induction cs with
  | nil => exact .nil
  | cons c cs ih =>
    rw [List.all_cons, Bool.and_eq_true, Bool.and_eq_true, bne_iff_ne, bne_iff_ne] at h
    exact .plain h.1.1 h.1.2 (ih h.2)

/-- Escaped text ends at the first quote that is not escaped. -/
theorem Escaped.append_inj {q : Char} {cs ds s t : List Char} (hq : q ≠ '\\')
    (hcs : Escaped q cs) (hds : Escaped q ds) (h : cs ++ q :: s = ds ++ q :: t) :
    cs = ds ∧ s = t := by
  induction hcs generalizing ds with
  | nil =>
    cases hds with
    | nil => exact ⟨rfl, (List.cons.inj h).2⟩
    | plain quote => exact absurd (List.cons.inj h).1.symm quote
    | escape => exact absurd (List.cons.inj h).1 hq
  | plain quote backslash _ ih =>
    cases hds with
    | nil => exact absurd (List.cons.inj h).1 quote
    | plain _ _ rest =>
      rw [List.cons_append, List.cons_append, List.cons.injEq] at h
      obtain ⟨rfl, htail⟩ := h
      obtain ⟨rfl, hrest⟩ := ih rest htail
      exact ⟨rfl, hrest⟩
    | escape => exact absurd (List.cons.inj h).1 backslash
  | escape _ ih =>
    cases hds with
    | nil => exact absurd (List.cons.inj h).1.symm hq
    | plain _ backslash => exact absurd (List.cons.inj h).1.symm backslash
    | escape rest =>
      simp only [List.cons_append, List.cons.injEq, true_and] at h
      obtain ⟨rfl, htail⟩ := h
      obtain ⟨rfl, hrest⟩ := ih rest htail
      exact ⟨rfl, hrest⟩

theorem Literal.append_inj {cs ds s t : List Char} (hcs : Literal cs) (hds : Literal ds)
    (h : cs ++ s = ds ++ t) : cs = ds ∧ s = t := by
  cases hcs with
  | @mk q inner delimiter escaped =>
    cases hds with
    | @mk r inner' _ escaped' =>
      simp only [List.cons_append, List.append_assoc, List.nil_append, List.cons.injEq] at h
      obtain ⟨rfl, htail⟩ := h
      obtain ⟨rfl, hrest⟩ := escaped.append_inj (isDelimiter_ne_backslash delimiter) escaped' htail
      exact ⟨rfl, hrest⟩

theorem Balanced.not_isClosing {c : Char} {cs : List Char} (h : Balanced (c :: cs)) :
    isClosing c = false := by
  rw [← Bool.not_eq_true]
  intro hclosing
  cases h with
  | plain _ _ closing => rw [closing] at hclosing; cases hclosing
  | quoted delimiter =>
    rw [isDelimiter_of_isClosing hclosing] at delimiter
    cases delimiter
  | bracketed opening =>
    rw [isOpening_of_isClosing hclosing] at opening
    cases opening

/-- Balanced text ends at the first bracket that closes none of its own. -/
theorem Balanced.append_inj {cs ds s t : List Char} {x y : Char} (hcs : Balanced cs)
    (hds : Balanced ds) (hx : isClosing x = true) (hy : isClosing y = true)
    (h : cs ++ x :: s = ds ++ y :: t) : cs = ds ∧ x = y ∧ s = t := by
  induction hcs generalizing ds s t x y with
  | nil =>
    cases ds with
    | nil => exact ⟨rfl, List.cons.inj h⟩
    | cons d ds =>
      rw [(List.cons.inj h).1, hds.not_isClosing] at hx
      cases hx
  | @plain c cs delimiter opening closing _ ih =>
    cases hds with
    | nil =>
      rw [(List.cons.inj h).1, hy] at closing
      cases closing
    | plain _ _ _ rest =>
      rw [List.cons_append, List.cons_append, List.cons.injEq] at h
      obtain ⟨rfl, htail⟩ := h
      obtain ⟨rfl, hxy⟩ := ih rest hx hy htail
      exact ⟨rfl, hxy⟩
    | quoted delimiter' =>
      rw [(List.cons.inj h).1, delimiter'] at delimiter
      cases delimiter
    | bracketed opening' =>
      rw [(List.cons.inj h).1, opening'] at opening
      cases opening
  | @quoted q inner cs delimiter escaped _ ih =>
    cases hds with
    | nil =>
      rw [(List.cons.inj h).1, isDelimiter_of_isClosing hy] at delimiter
      cases delimiter
    | plain delimiter' =>
      rw [(List.cons.inj h).1, delimiter'] at delimiter
      cases delimiter
    | quoted _ escaped' rest =>
      simp only [List.cons_append, List.append_assoc, List.cons.injEq] at h
      obtain ⟨rfl, htail⟩ := h
      obtain ⟨rfl, hrest⟩ := escaped.append_inj (isDelimiter_ne_backslash delimiter) escaped' htail
      obtain ⟨rfl, hxy⟩ := ih rest hx hy hrest
      exact ⟨rfl, hxy⟩
    | bracketed opening' =>
      rw [(List.cons.inj h).1, isDelimiter_of_isOpening opening'] at delimiter
      cases delimiter
  | @bracketed o c inner cs opening _ closing _ ihinner ih =>
    cases hds with
    | nil =>
      rw [(List.cons.inj h).1, isOpening_of_isClosing hy] at opening
      cases opening
    | plain _ opening' =>
      rw [(List.cons.inj h).1, opening'] at opening
      cases opening
    | quoted delimiter' =>
      rw [← (List.cons.inj h).1, isDelimiter_of_isOpening opening] at delimiter'
      cases delimiter'
    | bracketed _ balanced closing' rest =>
      simp only [List.cons_append, List.append_assoc, List.cons.injEq] at h
      obtain ⟨rfl, htail⟩ := h
      obtain ⟨rfl, rfl, hrest⟩ := ihinner balanced closing closing' htail
      obtain ⟨rfl, hxy⟩ := ih rest hx hy hrest
      exact ⟨rfl, hxy⟩

end Text
end Reify
