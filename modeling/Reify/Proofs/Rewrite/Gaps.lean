/-
Outside the rewritten slots a source unit is kept.

The spans of the rewrites cut the source into slots and gaps.  Splicing writes construction
code for each slot and copies every gap, so the output has the same gaps in the same order.
One line is added, the import of the library.
-/
import Mathlib.Data.List.TakeWhile
import Reify.Proofs.Concrete.Layout
import Reify.Proofs.Rewrite.Outermost
import Reify.Transform

namespace Reify
namespace Rewrite

/-! ## Slots and gaps -/

/-- The gaps as splicing cuts them, from offset `cursor` on; a cut may fail. -/
def gapsFrom (source : List Char) (cursor : Nat) : List Rewrite → List (Option (List Char))
  | [] => [Text.dropBytes? cursor source]
  | r :: rs =>
    Text.slice? source cursor r.span.start.toNat :: gapsFrom source r.span.stop.toNat rs

def codes (l : NodeLibrary) (rs : List Rewrite) : List (List Char) :=
  rs.map fun r => (l.emit r.node).toList

theorem codes_cons (l : NodeLibrary) (r : Rewrite) (rs : List Rewrite) :
    codes l (r :: rs) = r.node.emitChars l.binding.toList :: codes l rs := by
  rw [codes, List.map_cons, NodeLibrary.emit, String.toList_ofList]
  rfl

/-- A rewrite whose slot can be cut out of the source. -/
def Cuts (source : List Char) (r : Rewrite) : Prop :=
  r.span.start ≤ r.span.stop ∧ Text.Boundary source r.span.start.toNat ∧
    Text.Boundary source r.span.stop.toNat

/-- Ordered slots and the gaps between them make up what follows the cursor, and splicing
keeps those gaps. -/
theorem spliceFrom_eq_weave (l : NodeLibrary) (front rest : List Char) {rs : List Rewrite}
    (hcuts : ∀ r ∈ rs, Cuts (front ++ rest) r)
    (hstart : ∀ r ∈ rs, Text.byteLength front ≤ r.span.start.toNat)
    (hordered : rs.Pairwise fun r s => r.span.Before s.span) :
    ∃ (gap : List Char) (gaps slots : List (List Char)),
      gapsFrom (front ++ rest) (Text.byteLength front) rs = (gap :: gaps).map some ∧
      rs.map (fun r => Text.slice? (front ++ rest) r.span.start.toNat r.span.stop.toNat) =
        slots.map some ∧
      rest = Text.weave gap (slots.zip gaps) ∧
      spliceFrom l (front ++ rest) (Text.byteLength front) rs =
        Text.weave gap ((codes l rs).zip gaps) := by
  induction rs generalizing front rest with
  | nil =>
    refine ⟨rest, [], [], ?_, rfl, rfl, ?_⟩
    · rw [gapsFrom, Text.dropBytes?_append]; rfl
    · rw [spliceFrom, Text.dropBytes?_append]; rfl
  | cons r rs ih =>
    obtain ⟨hforward, hbstart, hbstop⟩ := hcuts r List.mem_cons_self
    obtain ⟨hbefore, hordered⟩ := List.pairwise_cons.mp hordered
    obtain ⟨gap, rest, rfl, hgap⟩ := hbstart.split (hstart r List.mem_cons_self)
    rw [← List.append_assoc] at hbstop
    obtain ⟨slot, rest, rfl, hslot⟩ := hbstop.split
      (by rw [hgap]; exact UInt32.le_iff_toNat_le.mp hforward)
    have hsource : front ++ (gap ++ (slot ++ rest)) = front ++ gap ++ slot ++ rest := by
      simp only [List.append_assoc]
    have hcutgap : Text.slice? (front ++ (gap ++ (slot ++ rest))) (Text.byteLength front)
        r.span.start.toNat = some gap := by
      have h := Text.slice?_append front gap (slot ++ rest)
      rw [← Text.byteLength_append, hgap, List.append_assoc] at h
      exact h
    have hcutslot : Text.slice? (front ++ (gap ++ (slot ++ rest))) r.span.start.toNat
        r.span.stop.toNat = some slot := by
      have h := Text.slice?_append (front ++ gap) slot rest
      rw [← Text.byteLength_append, hslot, hgap, ← hsource] at h
      exact h
    rw [hsource] at hcuts hcutgap hcutslot ⊢
    obtain ⟨next, gaps, slots, hkept, hslots, hrest, hspliced⟩ :=
      ih (front ++ gap ++ slot) rest (fun s hs => hcuts s (List.mem_cons_of_mem r hs))
        (fun s hs => by rw [hslot]; exact UInt32.le_iff_toNat_le.mp (hbefore s hs)) hordered
    rw [hslot] at hkept hspliced
    refine ⟨gap, next :: gaps, slot :: slots, ?_, ?_, ?_, ?_⟩
    · rw [gapsFrom, hcutgap, hkept]; rfl
    · rw [List.map_cons, hcutslot, hslots]; rfl
    · rw [List.zip_cons_cons, Text.weave, ← hrest]
    · rw [spliceFrom, hcutgap, hspliced, codes_cons, List.zip_cons_cons, Text.weave,
        Option.getD_some, List.append_assoc]

/-! ## The first line -/

def firstLine : List Char → List Char
  | [] => []
  | c :: cs => if c = '\n' then [c] else c :: firstLine cs

def shebang : List Char → List Char
  | '#' :: '!' :: cs => firstLine ('#' :: '!' :: cs)
  | _ => []

theorem firstLine_of_mem {cs : List Char} (h : '\n' ∈ cs) (ds : List Char) :
    firstLine (cs ++ ds) = firstLine cs := by
  induction cs with
  | nil => cases h
  | cons c cs ih =>
    rw [List.cons_append, firstLine, firstLine]
    by_cases hc : c = '\n'
    · rw [if_pos hc, if_pos hc]
    · have hmem := (List.mem_cons.mp h).resolve_left (Ne.symm hc)
      rw [if_neg hc, if_neg hc, ih hmem]

theorem firstLine_of_not_mem {cs : List Char} (h : '\n' ∉ cs) (ds : List Char) :
    firstLine (cs ++ ds) = cs ++ firstLine ds := by
  induction cs with
  | nil => rfl
  | cons c cs ih =>
    rw [List.mem_cons, not_or] at h
    rw [List.cons_append, firstLine, if_neg (Ne.symm h.1), ih h.2, List.cons_append]

theorem firstLine_eq_nil {cs : List Char} (h : firstLine cs = []) : cs = [] := by
  cases cs with
  | nil => rfl
  | cons c cs =>
    rw [firstLine] at h
    split at h <;> cases h

theorem firstLine_eq_takeWhile {cs rest : List Char} {c : Char}
    (h : cs.dropWhile (· ≠ '\n') = c :: rest) :
    firstLine cs = cs.takeWhile (· ≠ '\n') ++ ['\n'] ∧ cs = firstLine cs ++ rest := by
  induction cs with
  | nil => cases h
  | cons d cs ih =>
    rw [firstLine]
    by_cases hd : d = '\n'
    · subst hd
      obtain ⟨-, rfl⟩ := List.cons.inj h
      exact ⟨rfl, rfl⟩
    · rw [List.dropWhile_cons_of_pos (by simpa using hd)] at h
      obtain ⟨hline, hrest⟩ := ih h
      rw [if_neg hd, List.takeWhile_cons_of_pos (by simpa using hd), hline]
      refine ⟨rfl, ?_⟩
      rw [List.cons_append, ← hline, ← hrest]

theorem shebang_of_ne {c : Char} (h : c ≠ '#') (cs : List Char) : shebang (c :: cs) = [] := by
  unfold shebang
  split
  · next heq => exact absurd (List.head_eq_of_cons_eq heq) h
  · rfl

theorem shebang_of_ne_second {c d : Char} (h : ¬(c = '#' ∧ d = '!')) (cs : List Char) :
    shebang (c :: d :: cs) = [] := by
  unfold shebang
  split
  · next heq =>
    obtain ⟨rfl, hd⟩ := List.cons.inj heq
    exact absurd ⟨rfl, List.head_eq_of_cons_eq hd⟩ h
  · rfl

/-- The line is inserted behind a first line that begins with `#!`, or else in front. -/
theorem insertLine_eq (line text : List Char) :
    ∃ rest, text = shebang text ++ rest ∧
      insertLine line text = shebang text ++ (line ++ '\n' :: rest) := by
  unfold insertLine
  split
  · next cs =>
    rw [shebang]
    split
    · next c rest hdrop =>
      obtain ⟨hline, hrest⟩ := firstLine_eq_takeWhile hdrop
      refine ⟨rest, hrest, ?_⟩
      rw [hline]
      simp
    · next hdrop =>
      have hmem : '\n' ∉ '#' :: '!' :: cs := by
        intro hmem
        have hall := List.dropWhile_eq_nil_iff.mp hdrop '\n' hmem
        simp at hall
      have hline := firstLine_of_not_mem hmem []
      rw [List.append_nil, firstLine, List.append_nil] at hline
      refine ⟨[], by rw [hline, List.append_nil], ?_⟩
      rw [hline]
      simp
  · next hne =>
    have hnil : shebang text = [] := by
      unfold shebang
      split
      · next cs => exact absurd rfl (hne cs)
      · rfl
    exact ⟨text, by rw [hnil]; rfl, by rw [hnil]; rfl⟩

theorem shebang_append {gap tail : List Char} (hgap : 2 ≤ Text.byteLength gap)
    (hline : Text.byteLength (shebang (gap ++ tail)) ≤ Text.byteLength gap) (htail : tail ≠ [])
    (other : List Char) : shebang (gap ++ other) = shebang (gap ++ tail) := by
  match gap with
  | [] => exact absurd hgap (by decide)
  | [c] =>
    have hc : c ≠ '#' := by
      rintro rfl
      exact absurd hgap (by decide)
    rw [List.singleton_append, List.singleton_append, shebang_of_ne hc, shebang_of_ne hc]
  | c :: d :: gap =>
    by_cases h : c = '#' ∧ d = '!'
    · obtain ⟨rfl, rfl⟩ := h
      have hmem : '\n' ∈ '#' :: '!' :: gap := by
        by_contra hmem
        have heq : shebang ('#' :: '!' :: gap ++ tail) = '#' :: '!' :: gap ++ firstLine tail :=
          firstLine_of_not_mem hmem tail
        rw [heq, Text.byteLength_append] at hline
        have hnil := Text.eq_nil_of_byteLength (by omega : Text.byteLength (firstLine tail) = 0)
        exact htail (firstLine_eq_nil hnil)
      have hother := firstLine_of_mem hmem other
      have htail := firstLine_of_mem hmem tail
      exact hother.trans htail.symm
    · have hother := shebang_of_ne_second h (gap ++ other)
      have htail := shebang_of_ne_second h (gap ++ tail)
      exact hother.trans htail.symm

theorem exists_eq_shebang_append (text : List Char) : ∃ rest, text = shebang text ++ rest := by
  obtain ⟨rest, hrest, -⟩ := insertLine_eq [] text
  exact ⟨rest, hrest⟩

/-! ## Transforming a source unit -/

/-- A slot that covers text, as every argument in a clean tree does, behind the first two bytes
of the source and behind a first line that begins with `#!`. -/
def BehindHead (source : List Char) (r : Rewrite) : Prop :=
  r.span.start < r.span.stop ∧ 2 ≤ r.span.start.toNat ∧
    Text.byteLength (shebang source) ≤ r.span.start.toNat

instance (source : List Char) (r : Rewrite) : Decidable (BehindHead source r) :=
  inferInstanceAs (Decidable (_ ∧ _ ∧ _))

/-- The spliced source: its gaps as they were, construction code for the slots, and the import
behind the first line if that begins with `#!`. -/
theorem splice_eq_weave (l : NodeLibrary) (source : String) {rs : List Rewrite}
    (hcuts : ∀ r ∈ rs, Cuts source.toList r) (hhead : ∀ r ∈ rs, BehindHead source.toList r)
    (hordered : rs.Pairwise fun r s => r.span.Before s.span) :
    ∃ (gap : List Char) (gaps slots : List (List Char)),
      gapsFrom source.toList 0 rs = ((shebang source.toList ++ gap) :: gaps).map some ∧
      rs.map (fun r => Text.slice? source.toList r.span.start.toNat r.span.stop.toNat) =
        slots.map some ∧
      source.toList = shebang source.toList ++ Text.weave gap (slots.zip gaps) ∧
      (rs ≠ [] → (splice l source rs).toList = shebang source.toList ++
        (l.importLine.toList ++ '\n' :: Text.weave gap ((codes l rs).zip gaps))) := by
  obtain ⟨first, gaps, slots, hgaps, hslots, hsource, hspliced⟩ :=
    spliceFrom_eq_weave l [] source.toList hcuts (fun _ _ => Nat.zero_le _) hordered
  simp only [List.nil_append, Text.byteLength_nil] at hgaps hslots hspliced
  obtain ⟨after, hafter⟩ := exists_eq_shebang_append source.toList
  cases rs with
  | nil =>
    refine ⟨after, [], [], ?_, rfl, hafter, fun h => absurd rfl h⟩
    have hall := Text.dropBytes?_append [] source.toList
    rw [List.nil_append, Text.byteLength_nil] at hall
    rw [gapsFrom, hall, ← hafter]
    rfl
  | cons r rs =>
    obtain ⟨hslot, htwo, hline⟩ := hhead r List.mem_cons_self
    obtain ⟨tail, htail⟩ := Text.exists_weave_eq first (slots.zip gaps)
    obtain ⟨other, hother⟩ := Text.exists_weave_eq first ((codes l (r :: rs)).zip gaps)
    have htail := htail []
    have hother := hother []
    rw [List.nil_append, List.nil_append] at htail hother
    rw [htail] at hsource
    -- The first gap reaches up to the first slot, so it holds the whole first line.
    have hlen : Text.byteLength first = r.span.start.toNat := by
      rw [gapsFrom, List.map_cons] at hgaps
      obtain ⟨as, bs, -, has, hstop⟩ := Text.slice?_eq_some (List.head_eq_of_cons_eq hgaps)
      rw [Text.byteLength_append] at hstop
      omega
    have hne : tail ≠ [] := by
      rintro rfl
      have hstop := (hcuts r List.mem_cons_self).2.2.le
      rw [hsource, List.append_nil, hlen] at hstop
      rw [UInt32.lt_iff_toNat_lt] at hslot
      omega
    rw [hsource] at hline
    have hsame := shebang_append (hlen ▸ htwo) (hlen ▸ hline) hne other
    rw [← hsource] at hsame
    obtain ⟨gap, hgap, -⟩ := Text.exists_append_of_byteLength_le (hafter.symm.trans hsource)
      (by rw [hlen, hsource]; exact hline)
    refine ⟨gap, gaps, slots, hgap ▸ hgaps, hslots, ?_, fun _ => ?_⟩
    · rw [Text.append_weave, ← hgap, htail]
      exact hsource
    · obtain ⟨rest, hrest, hinsert⟩ := insertLine_eq l.importLine.toList (first ++ other)
      rw [hsame] at hrest hinsert
      have hbody : spliceFrom l source.toList 0 (r :: rs) = first ++ other := hspliced.trans hother
      rw [← hother, hgap, ← Text.append_weave] at hrest
      rw [splice, if_neg (by simp), String.toList_ofList, hbody, hinsert,
        ← List.append_cancel_left hrest]

end Rewrite

namespace Transformer

open Rewrite

theorem transform_eq_ok {f : Transformer} {grammar : Grammar} {path : Path} {source : String}
    {out : TransformOutput} (h : f.transform grammar path source = .ok out) :
    out = ⟨source, [], true⟩ ∨ ∃ c, grammar (.ofPath path) source = .ok c ∧
      out = f.transformTree source (c.toTree source) := by
  unfold transform at h
  split at h
  · exact Or.inl (Except.ok.inj h).symm
  · split at h
    · next t hparsed =>
      unfold Parsed.ofPath Parsed.ofGrammar at hparsed
      split at hparsed
      · next c hc =>
        obtain ⟨rfl, -⟩ : c.toTree source = t ∧ _ := by
          rw [Parsed.ofConcrete, Parsed.mk.injEq, Option.some.injEq] at hparsed
          exact hparsed
        exact Or.inr ⟨c, hc, (Except.ok.inj h).symm⟩
      · cases hparsed
    · cases h

/-- The rewrites of a tree that is laid out over its source cut the source in order. -/
theorem rewrites_cut {f : Transformer} {source : String} {c : Concrete}
    (hplaced : c.Everywhere (Concrete.LaidOut source.toList))
    (hsize : Text.byteLength source.toList < UInt32.size) :
    ∀ r ∈ (f.transformTree source (c.toTree source)).rewrites, Cuts source.toList r := by
  intro r hr
  have hmem := (inSourceOrder_perm _).mem_iff.mp hr
  obtain ⟨p, slot, hat, hspan⟩ := exists_slot_of_mem_collect hmem
  have hlaid := (Concrete.everywhere_laidOut_toTree hplaced hsize) _ slot hat
  have hboundary := (Concrete.everywhere_boundary_toTree hplaced hsize) _ slot hat
  rw [Cuts, hspan]
  exact ⟨hlaid.1, hboundary⟩

/-- Outside the rewritten slots a transform keeps its source: source and output have the same
gaps, all of them cut from the source, and the import is the one line that is added, in front
or behind a first line that begins with `#!`. -/
theorem transform_keeps_gaps (f : Transformer) (grammar : Grammar) (path : Path)
    (source : String) {out : TransformOutput} (h : f.transform grammar path source = .ok out)
    (hsize : Text.byteLength source.toList < UInt32.size)
    (hgrammar : ∀ c, grammar (.ofPath path) source = .ok c →
      c.Everywhere (Concrete.LaidOut source.toList))
    (hslots : ∀ r ∈ out.rewrites, BehindHead source.toList r) :
    (out.rewrites = [] → out.source = source) ∧
    ∃ (gap : List Char) (gaps slots : List (List Char)),
      gapsFrom source.toList 0 out.rewrites =
        ((shebang source.toList ++ gap) :: gaps).map some ∧
      out.rewrites.map
          (fun r => Text.slice? source.toList r.span.start.toNat r.span.stop.toNat) =
        slots.map some ∧
      source.toList = shebang source.toList ++ Text.weave gap (slots.zip gaps) ∧
      (out.rewrites ≠ [] → out.source.toList = shebang source.toList ++
        (f.library.importLine.toList ++ '\n' ::
          Text.weave gap ((codes f.library out.rewrites).zip gaps))) := by
  rcases transform_eq_ok h with rfl | ⟨c, hc, rfl⟩
  · refine ⟨fun _ => rfl, ?_⟩
    obtain ⟨gap, gaps, slots, hgaps, hslots, hsource, -⟩ :=
      splice_eq_weave f.library source (List.forall_mem_nil _) (List.forall_mem_nil _) .nil
    exact ⟨gap, gaps, slots, hgaps, hslots, hsource, fun hne => absurd rfl hne⟩
  · have hplaced := hgrammar c hc
    have hordered := (inSourceOrder_before (o := f.oracle)
      (Concrete.everywhere_laidOut_toTree hplaced hsize)).imp_of_mem fun {r s} hr hs hrs =>
        (hrs.2 (hslots r hr).1 (hslots s hs).1).1
    refine ⟨fun hnil => ?_, splice_eq_weave f.library source (rewrites_cut hplaced hsize) hslots
      hordered⟩
    have hempty : inSourceOrder (collect f.oracle (c.toTree source)) = [] := hnil
    simp [transformTree, hempty, splice]

def script : String := "#!x\nreflect(f);"

def scriptToken (name : String) (start : Nat) : Concrete :=
  .node ⟨name, none, false, false, false, false, start, start + 1⟩ []

def scriptTree : Concrete :=
  .node ⟨"program", none, true, false, false, false, 0, 15⟩
    [.node ⟨"hash_bang_line", none, true, false, false, false, 0, 3⟩ [],
      .node ⟨"expression_statement", none, true, false, false, false, 4, 15⟩
        [.node ⟨"call_expression", none, true, false, false, false, 4, 14⟩
          [.node ⟨"identifier", some "function", true, false, false, false, 4, 11⟩ [],
            .node ⟨"arguments", some "arguments", true, false, false, false, 11, 14⟩
              [scriptToken "(" 11,
                .node ⟨"identifier", none, true, false, false, false, 12, 13⟩ [],
                scriptToken ")" 13]],
          scriptToken ";" 14]]

def untyped : Transformer := ⟨.noTypes, {}, []⟩

theorem script_keeps_gaps :
    ∃ out, untyped.transform (fun _ _ => .ok scriptTree) ⟨"a.ts"⟩ script = .ok out ∧
      out.rewrites.map (fun r => r.span) = [⟨12, 13⟩] ∧
      ∃ gap gaps, out.source.toList = shebang script.toList ++
        (untyped.library.importLine.toList ++ '\n' ::
          Text.weave gap ((codes untyped.library out.rewrites).zip gaps)) := by
  have hout : untyped.transform (fun _ _ => .ok scriptTree) ⟨"a.ts"⟩ script =
      .ok (untyped.transformTree script (scriptTree.toTree script)) := by rfl
  have hspans : (untyped.transformTree script (scriptTree.toTree script)).rewrites.map
      (fun r => r.span) = [⟨12, 13⟩] := by decide
  have hlaid : scriptTree.Everywhere (Concrete.LaidOut script.toList) :=
    Concrete.everywhere_of_holdsEverywhere _ (by decide)
  obtain ⟨-, gap, gaps, -, -, -, -, hsource⟩ :=
    transform_keeps_gaps untyped (fun _ _ => .ok scriptTree) ⟨"a.ts"⟩ script hout (by decide)
      (fun c hc => Except.ok.inj hc ▸ hlaid) (by decide)
  exact ⟨_, hout, hspans, gap, gaps, hsource (by decide)⟩

end Transformer
end Reify
