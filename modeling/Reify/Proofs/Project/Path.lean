/-
Paths made of names.

A name is what an entry of a directory may be called.  A path made of names has them as its
steps again, and its extension is what follows the last dot of the last name.  Sequences of
steps are put in order by comparing them step by step.
-/
import Mathlib.Data.List.Lex
import Mathlib.Data.String.Basic
import Reify.Path

namespace Reify
namespace Path

/-! ## Names -/

/-- A text that can be the name of an entry. -/
structure IsName (name : String) : Prop where
  nonempty : name ≠ ""
  here : name ≠ "."
  above : name ≠ ".."
  slash : '/' ∉ name.toList
  nul : '\x00' ∉ name.toList

instance (name : String) : Decidable (IsName name) :=
  decidable_of_iff (name ≠ "" ∧ name ≠ "." ∧ name ≠ ".." ∧ '/' ∉ name.toList ∧
      '\x00' ∉ name.toList)
    ⟨fun h => ⟨h.1, h.2.1, h.2.2.1, h.2.2.2.1, h.2.2.2.2⟩,
      fun h => ⟨h.nonempty, h.here, h.above, h.slash, h.nul⟩⟩

theorem pieces_of_notMem {cs : List Char} (h : '/' ∉ cs) : pieces cs = [cs] := by
  induction cs with
  | nil => rfl
  | cons c cs ih =>
    rw [List.mem_cons, not_or] at h
    rw [pieces, if_neg (Ne.symm h.1), ih h.2]

theorem pieces_ofSteps {steps : List String} (hne : steps ≠ []) (h : ∀ s ∈ steps, IsName s) :
    pieces (ofSteps steps).text.toList = steps.map String.toList := by
  induction steps with
  | nil => exact absurd rfl hne
  | cons s steps ih =>
    rw [List.forall_mem_cons] at h
    cases steps with
    | nil =>
      rw [ofSteps, String.intercalate_singleton, pieces_of_notMem h.1.slash]
      rfl
    | cons t steps =>
      have htext : (ofSteps (s :: t :: steps)).text.toList =
          s.toList ++ '/' :: (ofSteps (t :: steps)).text.toList := by
        rw [ofSteps, String.intercalate_cons_cons]
        simp [ofSteps]
      rw [htext, pieces_append, pieces_of_notMem h.1.slash, ih (List.cons_ne_nil _ _) h.2]
      rfl

theorem map_ofList_map_toList (steps : List String) :
    (steps.map String.toList).map String.ofList = steps := by
  rw [List.map_map]
  exact List.map_id'' (fun s => String.ofList_toList) steps

theorem steps_ofSteps {steps : List String} (hne : steps ≠ []) (h : ∀ s ∈ steps, IsName s) :
    (ofSteps steps).steps = steps := by
  have hkept : ∀ cs ∈ steps.map String.toList, decide (cs ≠ []) && decide (cs ≠ ['.']) := by
    intro cs hcs
    obtain ⟨s, hs, rfl⟩ := List.mem_map.mp hcs
    have hempty : s.toList ≠ [] := by
      intro heq
      exact (h s hs).nonempty (String.toList_inj.mp heq)
    have hdot : s.toList ≠ ['.'] := by
      intro heq
      exact (h s hs).here (String.toList_inj.mp heq)
    simp [hempty, hdot]
  rw [Path.steps, pieces_ofSteps hne h, List.filter_eq_self.mpr hkept, map_ofList_map_toList]

theorem isAbsolute_ofSteps {steps : List String} (hne : steps ≠ []) (h : ∀ s ∈ steps, IsName s) :
    (ofSteps steps).isAbsolute = false := by
  have hpieces := pieces_ofSteps hne h
  cases steps with
  | nil => exact absurd rfl hne
  | cons s steps =>
    rw [isAbsolute, beq_eq_false_iff_ne]
    intro hslash
    obtain ⟨cs, hcs⟩ := List.head?_eq_some_iff.mp hslash
    rw [hcs, pieces, if_pos rfl, List.map_cons] at hpieces
    have hempty : s.toList = [] := (List.cons.inj hpieces).1.symm
    exact (h s List.mem_cons_self).nonempty (String.toList_inj.mp hempty)

/-! ## Extensions -/

theorem extensionOf?_eq_some_iff {name ext : List Char} (hdot : '.' ∉ ext) :
    extensionOf? name = some ext ↔ ∃ stem, stem ≠ [] ∧ name = stem ++ '.' :: ext := by
  obtain ⟨back, rfl⟩ : ∃ back, name = back.reverse := ⟨name.reverse, name.reverse_reverse.symm⟩
  have hsplit := List.takeWhile_append_dropWhile (p := (· ≠ '.')) (l := back)
  have hstop := List.head?_dropWhile_not (· ≠ '.') back
  unfold extensionOf?
  rw [List.reverse_reverse]
  constructor
  · intro h
    obtain ⟨hlength, h⟩ := Option.ite_none_right_eq_some.mp h
    obtain rfl := Option.some.inj h
    generalize back.takeWhile (· ≠ '.') = after at *
    generalize back.dropWhile (· ≠ '.') = rest at *
    subst hsplit
    -- More than one character is left over, and the first of them is the dot.
    rcases rest with - | ⟨c, - | ⟨d, stem⟩⟩
    · simp at hlength
    · simp at hlength
    · obtain rfl : c = '.' := by simpa using hstop
      exact ⟨(d :: stem).reverse, by simp, by simp⟩
  · rintro ⟨stem, hstem, hname⟩
    obtain rfl : back = ext.reverse ++ '.' :: stem.reverse := by
      rw [← List.reverse_reverse back, hname]
      simp
    have hafter : (ext.reverse ++ '.' :: stem.reverse).takeWhile (· ≠ '.') = ext.reverse := by
      have hext : ∀ c ∈ ext.reverse, decide (c ≠ '.') = true := by
        intro c hc
        have hmem : c ∈ ext := List.mem_reverse.mp hc
        exact decide_eq_true fun heq => hdot (heq ▸ hmem)
      rw [List.takeWhile_append_of_pos hext]
      simp
    have hpos : 0 < stem.length := List.length_pos_iff.mpr hstem
    simp only [hafter, List.reverse_reverse]
    exact if_pos (by simp; omega)

theorem extension?_ofSteps {steps : List String} {ext : String} (hne : steps ≠ [])
    (h : ∀ s ∈ steps, IsName s) (hdot : '.' ∉ ext.toList) :
    (ofSteps steps).extension? = some ext ↔
      ∃ above stem, stem ≠ "" ∧ steps = above ++ [stem ++ "." ++ ext] := by
  obtain ⟨above, name, rfl⟩ : ∃ above name, steps = above ++ [name] :=
    ⟨steps.dropLast, steps.getLast hne, (List.dropLast_append_getLast hne).symm⟩
  have hname : (ofSteps (above ++ [name])).fileName? = some name := by
    rw [fileName?, steps_ofSteps hne h, List.getLast?_concat]
    exact if_neg (h name (by simp)).above
  have hextension : (ofSteps (above ++ [name])).extension? =
      (extensionOf? name.toList).map String.ofList := by
    rw [extension?, hname]
    rfl
  have hiff : (ofSteps (above ++ [name])).extension? = some ext ↔
      extensionOf? name.toList = some ext.toList := by
    rw [hextension, Option.map_eq_some_iff]
    constructor
    · rintro ⟨cs, hcs, rfl⟩
      rw [hcs, String.toList_ofList]
    · intro hcs
      exact ⟨ext.toList, hcs, String.ofList_toList⟩
  rw [hiff, extensionOf?_eq_some_iff hdot]
  constructor
  · rintro ⟨stem, hstem, hcs⟩
    refine ⟨above, String.ofList stem, fun heq => hstem ?_, ?_⟩
    · simpa using congrArg String.toList heq
    · have hlast : name = String.ofList stem ++ "." ++ ext :=
        String.toList_inj.mp (by simpa using hcs)
      rw [hlast]
  · rintro ⟨above', stem, hstem, hsteps⟩
    obtain ⟨-, hlast⟩ := List.append_inj' hsteps rfl
    obtain rfl := List.singleton_inj.mp hlast
    exact ⟨stem.toList, fun heq => hstem (String.toList_inj.mp heq), by simp⟩

/-! ## Order -/

theorem precedes_iff {s t : List String} : precedes s t = true ↔ s < t := by
  induction s generalizing t with
  | nil => cases t <;> simp [precedes]
  | cons a s ih =>
    cases t with
    | nil => simp [precedes]
    | cons b t => simp [precedes, ih, List.cons_lt_cons_iff]

theorem insert_pairwise {s : List String} {ts : List (List String)} (h : ts.Pairwise (· ≤ ·)) :
    (insert s ts).Pairwise (· ≤ ·) := by
  induction ts with
  | nil => exact List.pairwise_singleton _ _
  | cons t ts ih =>
    rw [insert]
    split
    · next hbefore =>
      rw [List.pairwise_cons] at h ⊢
      refine ⟨fun u hu => ?_, ih h.2⟩
      rcases List.mem_cons.mp ((insert_perm s ts).mem_iff.mp hu) with rfl | hu
      · exact le_of_lt (precedes_iff.mp hbefore)
      · exact h.1 u hu
    · next hafter =>
      have hle : s ≤ t := not_lt.mp fun hlt => hafter (precedes_iff.mpr hlt)
      rw [List.pairwise_cons] at h
      refine List.pairwise_cons.mpr ⟨fun u hu => ?_, List.pairwise_cons.mpr h⟩
      rcases List.mem_cons.mp hu with rfl | hu
      · exact hle
      · exact le_trans hle (h.1 u hu)

/-- Different sequences of steps come out strictly ascending. -/
theorem inOrder_pairwise {found : List (List String)} (h : found.Nodup) :
    (inOrder found).Pairwise (· < ·) := by
  have hle : (inOrder found).Pairwise (· ≤ ·) := by
    induction found with
    | nil => exact .nil
    | cons s found ih => exact insert_pairwise (ih (List.nodup_cons.mp h).2)
  have hnodup : (inOrder found).Nodup := (inOrder_perm found).nodup_iff.mpr h
  exact (hle.and hnodup).imp fun hle => lt_of_le_of_ne hle.1 hle.2

end Path
end Reify
