/-
Where a text can be cut.

A byte offset is a boundary if a character ends there.  Between two boundaries there is a
slice, so a text falls into pieces at any ascending boundaries.
-/
import Reify.Text.Slice

namespace Reify
namespace Text

/-- Byte `k` of the text is where a character ends, or the start. -/
def Boundary (cs : List Char) (k : Nat) : Prop := ∃ as bs, cs = as ++ bs ∧ byteLength as = k

theorem dropBytes?_eq_some {cs bs : List Char} {k : Nat} (h : dropBytes? k cs = some bs) :
    ∃ as, cs = as ++ bs ∧ byteLength as = k := by
  induction cs generalizing k with
  | nil =>
    cases k with
    | zero => exact ⟨[], Option.some.inj h, rfl⟩
    | succ k => cases h
  | cons c cs ih =>
    cases k with
    | zero => exact ⟨[], Option.some.inj h, rfl⟩
    | succ k =>
      rw [dropBytes?, Option.ite_none_right_eq_some] at h
      obtain ⟨hle, h⟩ := h
      obtain ⟨as, rfl, hlen⟩ := ih h
      exact ⟨c :: as, rfl, by rw [byteLength_cons, hlen]; omega⟩

theorem takeBytes?_eq_some {cs as : List Char} {k : Nat} (h : takeBytes? k cs = some as) :
    ∃ bs, cs = as ++ bs ∧ byteLength as = k := by
  induction cs generalizing k as with
  | nil =>
    cases k with
    | zero =>
      obtain rfl := Option.some.inj h
      exact ⟨[], rfl, rfl⟩
    | succ k => cases h
  | cons c cs ih =>
    cases k with
    | zero =>
      obtain rfl := Option.some.inj h
      exact ⟨c :: cs, rfl, rfl⟩
    | succ k =>
      rw [takeBytes?, Option.ite_none_right_eq_some, Option.map_eq_some_iff] at h
      obtain ⟨hle, as, htake, rfl⟩ := h
      obtain ⟨bs, rfl, hlen⟩ := ih htake
      exact ⟨bs, rfl, by rw [byteLength_cons, hlen]; omega⟩

theorem slice?_eq_some {cs ms : List Char} {start stop : Nat}
    (h : slice? cs start stop = some ms) :
    ∃ as bs, cs = as ++ ms ++ bs ∧ byteLength as = start ∧ byteLength (as ++ ms) = stop := by
  rw [slice?, Option.ite_none_right_eq_some, Option.bind_eq_some_iff] at h
  obtain ⟨hle, rest, hdrop, htake⟩ := h
  obtain ⟨as, rfl, hstart⟩ := dropBytes?_eq_some hdrop
  obtain ⟨bs, rfl, hlen⟩ := takeBytes?_eq_some htake
  refine ⟨as, bs, (List.append_assoc _ _ _).symm, hstart, ?_⟩
  rw [byteLength_append, hstart, hlen]
  omega

theorem boundary_iff {cs : List Char} {k : Nat} :
    (dropBytes? k cs).isSome = true ↔ Boundary cs k := by
  constructor
  · intro h
    obtain ⟨bs, h⟩ := Option.isSome_iff_exists.mp h
    obtain ⟨as, rfl, hlen⟩ := dropBytes?_eq_some h
    exact ⟨as, bs, rfl, hlen⟩
  · rintro ⟨as, bs, rfl, rfl⟩
    rw [dropBytes?_append]
    rfl

instance (cs : List Char) (k : Nat) : Decidable (Boundary cs k) :=
  decidable_of_iff _ boundary_iff

theorem Boundary.le {cs : List Char} {k : Nat} (h : Boundary cs k) : k ≤ byteLength cs := by
  obtain ⟨as, bs, rfl, rfl⟩ := h
  rw [byteLength_append]
  exact Nat.le_add_right _ _

theorem eq_nil_of_byteLength {cs : List Char} (h : byteLength cs = 0) : cs = [] := by
  cases cs with
  | nil => rfl
  | cons c cs =>
    have hc := c.utf8Size_pos
    rw [byteLength_cons] at h
    omega

/-- Of two prefixes of one text, the one with fewer bytes is a prefix of the other. -/
theorem exists_append_of_byteLength_le {as bs cs ds : List Char} (h : as ++ bs = cs ++ ds)
    (hle : byteLength as ≤ byteLength cs) : ∃ ms, cs = as ++ ms ∧ bs = ms ++ ds := by
  rcases List.append_eq_append_iff.mp h with ⟨ms, rfl, rfl⟩ | ⟨ms, rfl, rfl⟩
  · exact ⟨ms, rfl, rfl⟩
  · rw [byteLength_append] at hle
    have hms := eq_nil_of_byteLength (by omega : byteLength ms = 0)
    exact ⟨[], by simp [hms], by simp [hms]⟩

theorem Boundary.split {as bs : List Char} {k : Nat} (h : Boundary (as ++ bs) k)
    (hle : byteLength as ≤ k) : ∃ ms ds, bs = ms ++ ds ∧ byteLength (as ++ ms) = k := by
  obtain ⟨cs, ds, heq, rfl⟩ := h
  obtain ⟨ms, rfl, rfl⟩ := exists_append_of_byteLength_le heq hle
  exact ⟨ms, ds, rfl, rfl⟩

/-- Slots with the gaps around them: `gap`, then each slot with the gap that follows it. -/
def weave (gap : List Char) : List (List Char × List Char) → List Char
  | [] => gap
  | (slot, next) :: rest => gap ++ (slot ++ weave next rest)

theorem append_weave (front gap : List Char) (rest : List (List Char × List Char)) :
    front ++ weave gap rest = weave (front ++ gap) rest := by
  cases rest with
  | nil => rfl
  | cons entry rest => rw [weave, weave, List.append_assoc]

theorem exists_weave_eq (gap : List Char) (rest : List (List Char × List Char)) :
    ∃ tail, ∀ front, weave (front ++ gap) rest = front ++ (gap ++ tail) := by
  cases rest with
  | nil => exact ⟨[], fun front => by rw [weave, List.append_nil]⟩
  | cons entry rest =>
    exact ⟨entry.1 ++ weave entry.2 rest, fun front => by rw [weave, List.append_assoc]⟩

end Text
end Reify
