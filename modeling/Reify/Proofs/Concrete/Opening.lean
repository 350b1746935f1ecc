/-
Which opening bracket a missing closing one is reported with.

The search for the opening bracket is a search for its character in the text of the node that
lacks the closing one.  The text between the children of a node has no brackets, so the search
finds the first child whose text holds the character (`position?_children`).  That child may be
the bracket that is open, but also an earlier child with a bracket inside: a closed pair, a
string or a comment.  The error points at a bracket that is open exactly if the first child
that holds the character is the bracket itself (`pointsAtOpen_iff`).
-/
import Reify.Proofs.Concrete.Topmost
import Reify.Proofs.Text.Delimited

namespace Reify

/-! ## The first occurrence of a character -/

namespace SyntaxError

theorem offsetOf?_append (d : Char) (as bs : List Char) :
    offsetOf? d (as ++ bs) =
      (offsetOf? d as).or ((offsetOf? d bs).map (Text.byteLength as + ·)) := by
  induction as with
  | nil => simp [offsetOf?]
  | cons a as ih =>
    rw [List.cons_append, offsetOf?, offsetOf?]
    by_cases ha : a = d
    · rw [if_pos ha, if_pos ha, Option.some_or]
    · rw [if_neg ha, if_neg ha, ih, Option.map_or, Option.map_map]
      simp only [Function.comp_def, Text.byteLength_cons, Nat.add_assoc]

theorem offsetOf?_lt {d : Char} {cs : List Char} {n : Nat} (h : offsetOf? d cs = some n) :
    n < Text.byteLength cs := by
  induction cs generalizing n with
  | nil => cases h
  | cons c cs ih =>
    have hpos := c.utf8Size_pos
    rw [offsetOf?] at h
    rw [Text.byteLength_cons]
    split at h
    · obtain rfl := Option.some.inj h
      omega
    · obtain ⟨m, hm, rfl⟩ := Option.map_eq_some_iff.mp h
      have hlt := ih hm
      omega

theorem offsetOf?_eq_none {d : Char} {cs : List Char} (h : ∀ c ∈ cs, c ≠ d) :
    offsetOf? d cs = none := by
  induction cs with
  | nil => rfl
  | cons c cs ih =>
    rw [offsetOf?, if_neg (h c List.mem_cons_self), ih (List.forall_mem_cons.mp h).2]
    rfl

/-- Where the character `d` first stands between two offsets. -/
def position? (source : List Char) (d : Char) (start stop : Nat) : Option Nat :=
  ((Text.slice? source start stop).bind (offsetOf? d)).map (start + ·)

variable {source : List Char} {d : Char} {a b e n : Nat}

theorem position?_bounds (h : position? source d a b = some n) : a ≤ n ∧ n < b := by
  obtain ⟨m, hm, rfl⟩ := Option.map_eq_some_iff.mp h
  obtain ⟨text, htext, hoffset⟩ := Option.bind_eq_some_iff.mp hm
  obtain ⟨pre, post, -, hstart, hstop⟩ := Text.slice?_eq_some htext
  have hlt := offsetOf?_lt hoffset
  rw [Text.byteLength_append] at hstop
  omega

/-- A search goes on in the second part of a text where it finds nothing in the first. -/
theorem position?_split (ha : Text.Boundary source a) (hb : Text.Boundary source b)
    (he : Text.Boundary source e) (hab : a ≤ b) (hbe : b ≤ e) :
    position? source d a e = (position? source d a b).or (position? source d b e) := by
  obtain ⟨pre, rest, rfl, rfl⟩ := ha
  obtain ⟨first, rest, rfl, rfl⟩ := hb.split hab
  rw [← List.append_assoc] at he
  obtain ⟨second, post, rfl, rfl⟩ := he.split hbe
  have hfirst := Text.slice?_append pre first (second ++ post)
  have hsecond := Text.slice?_append (pre ++ first) second post
  have hwhole := Text.slice?_append pre (first ++ second) post
  simp only [List.append_assoc, Text.byteLength_append, Nat.add_assoc] at hfirst hsecond hwhole
  simp only [position?, List.append_assoc, Text.byteLength_append, Nat.add_assoc, hfirst, hsecond,
    hwhole, Option.bind_some, offsetOf?_append, Option.map_or, Option.map_map, Function.comp_def]

end SyntaxError

namespace Concrete

open SyntaxError

/-! ## Brackets in a tree -/

def gaps (start stop : Nat) : List Concrete → List (Nat × Nat)
  | [] => [(start, stop)]
  | c :: cs => (start, c.info.start) :: gaps c.info.stop stop cs

def hasNoOpening (source : List Char) (gap : Nat × Nat) : Bool :=
  (Text.slice? source gap.1 gap.2).all fun text => text.all fun c => !Text.isOpening c

/-- No opening bracket stands in a node outside its children. -/
def Filled (source : List Char) (n : Concrete) : Prop :=
  n.children ≠ [] →
    (gaps n.info.start n.info.stop n.children).all (hasNoOpening source) = true

/-- A token that is not supposed is written as it is named. -/
def AsNamed (source : List Char) (n : Concrete) : Prop :=
  n.info.named = false → n.info.missing = false → n.children = [] →
    Text.slice? source n.info.start n.info.stop = some n.info.name.toList

instance (source : List Char) (n : Concrete) : Decidable (n.Filled source) :=
  inferInstanceAs (Decidable (_ → _))

instance (source : List Char) (n : Concrete) : Decidable (n.AsNamed source) :=
  inferInstanceAs (Decidable (_ → _))

structure Opens (d : Char) (n : Concrete) : Prop where
  anonymous : n.info.named = false
  present : n.info.missing = false
  token : n.children = []
  name : n.info.name = String.singleton d

def holds (source : List Char) (d : Char) (n : Concrete) : Bool :=
  (position? source d n.info.start n.info.stop).isSome

variable {source : List Char} {d : Char} {n : Concrete}

theorem Opens.position? (h : n.Opens d) (hnamed : n.AsNamed source) :
    position? source d n.info.start n.info.stop = some n.info.start := by
  have htext := hnamed h.anonymous h.present h.token
  rw [h.name, String.toList_singleton] at htext
  rw [SyntaxError.position?, htext, Option.bind_some, offsetOf?, if_pos rfl]
  rfl

theorem position?_eq_none {gap : Nat × Nat} (hopening : Text.isOpening d = true)
    (h : hasNoOpening source gap = true) :
    SyntaxError.position? source d gap.1 gap.2 = none := by
  rw [SyntaxError.position?, Option.map_eq_none_iff, Option.bind_eq_none_iff]
  intro text htext
  rw [hasNoOpening, htext, Option.all_some, List.all_eq_true] at h
  refine offsetOf?_eq_none fun c hc => ?_
  rintro rfl
  have hclosed := h c hc
  rw [hopening] at hclosed
  cases hclosed

/-- Where there are no brackets between nodes, a bracket is found in the first node that holds
it. -/
theorem position?_children {cs : List Concrete} {start stop : Nat}
    (hopening : Text.isOpening d = true) (hstart : Text.Boundary source start)
    (hstop : Text.Boundary source stop) (hle : start ≤ stop) (hlaid : ∀ c ∈ cs, c.LaidOut source)
    (hnested : ∀ c ∈ cs, start ≤ c.info.start ∧ c.info.stop ≤ stop)
    (hordered : cs.Pairwise fun a b => a.info.stop ≤ b.info.start)
    (hfilled : (gaps start stop cs).all (hasNoOpening source) = true) :
    SyntaxError.position? source d start stop =
      cs.findSome? fun c => SyntaxError.position? source d c.info.start c.info.stop := by
  induction cs generalizing start with
  | nil =>
    rw [gaps, List.all_cons, Bool.and_eq_true] at hfilled
    exact position?_eq_none hopening hfilled.1
  | cons c cs ih =>
    obtain ⟨hbefore, hinside⟩ := hnested c List.mem_cons_self
    obtain ⟨hforward, ⟨hfrom, hto⟩, -⟩ := hlaid c List.mem_cons_self
    rw [List.pairwise_cons] at hordered
    rw [gaps, List.all_cons, Bool.and_eq_true] at hfilled
    have hrest := ih hto hinside (List.forall_mem_cons.mp hlaid).2
      (fun e he => ⟨hordered.1 e he, (hnested e (List.mem_cons_of_mem c he)).2⟩) hordered.2
      hfilled.2
    rw [position?_split hstart hfrom hstop hbefore (Nat.le_trans hforward hinside),
      position?_eq_none hopening hfilled.1, Option.none_or,
      position?_split hfrom hto hstop hforward hinside, hrest, List.findSome?_cons]
    cases SyntaxError.position? source d c.info.start c.info.stop <;> rfl

/-! ## What a missing bracket is reported with -/

/-- The node `n` at the place `q` lacks its child `m`, at index `i`, which would close `d`. -/
structure Lacks (c : Concrete) (q : Tree.Place) (n : Concrete) (i : Nat) (m : Concrete)
    (d : Char) : Prop where
  parent : c.at? q = some n
  child : n.children[i]? = some m
  missing : m.info.missing = true
  no_error : m.info.error = false
  closes : openingFor? m.info.name = some d

/-- The error for the missing child `i` of `n` points at an opening bracket among the children
before it, or there is none and the error tells of the missing token alone. -/
def PointsAtOpen (file : String) (n : Concrete) (i : Nat) (m : Info) (d : Char)
    (e : SyntaxError) : Prop :=
  (∃ s ∈ n.children.take i, s.Opens d ∧ e = .unclosed file d ⟨s.info.start, 1⟩ ⟨m.start, 0⟩) ∨
    ((∀ s ∈ n.children.take i, ¬s.Opens d) ∧ e = .missing file m.name ⟨m.start, 0⟩)

end Concrete

namespace SyntaxError

open Concrete

variable {file : String} {source : List Char} {d : Char} {n m : Concrete} {i : Nat}

theorem isOpening_of_openingFor? {closing : String} (h : openingFor? closing = some d) :
    Text.isOpening d = true := by
  unfold openingFor? at h
  split at h
  case h_4 => cases h
  all_goals
    obtain rfl := Option.some.inj h
    rfl

theorem opening?_eq {info : Info} {closing : String} (h : openingFor? closing = some d) :
    opening? source (some info) closing =
      (position? source d info.start info.stop).map fun offset => (d, offset) := by
  rw [opening?, h, position?]
  simp only [Option.bind_eq_bind, Option.bind_some]
  cases Text.slice? source info.start info.stop with
  | none => rfl
  | some text =>
    simp only [Option.bind_some]
    cases offsetOf? d text <;> rfl

/-- The search ends in the first child that holds the character, and a child at which it could
have ended is that one. -/
theorem exists_first_holding {cs : List Concrete} {offset : Nat}
    (hordered : cs.Pairwise fun a b => a.info.stop ≤ b.info.start)
    (h : (cs.findSome? fun c => position? source d c.info.start c.info.stop) = some offset) :
    ∃ t, cs.find? (holds source d) = some t ∧
      position? source d t.info.start t.info.stop = some offset ∧
      ∀ s ∈ cs, position? source d s.info.start s.info.stop = some offset → s = t := by
  obtain ⟨before, t, after, rfl, ht, hbefore⟩ := List.findSome?_eq_some_iff.mp h
  refine ⟨t, ?_, ht, fun s hs hat => ?_⟩
  · refine List.find?_eq_some_iff_append.mpr ⟨?_, before, after, rfl, fun s hs => ?_⟩
    · rw [holds, ht]
      rfl
    · rw [holds, hbefore s hs]
      rfl
  · rw [List.mem_append, List.mem_cons] at hs
    rcases hs with hs | rfl | hs
    · rw [hbefore s hs] at hat
      cases hat
    · rfl
    · -- What follows `t` starts behind what was found in `t`.
      have hle := (List.pairwise_cons.mp (List.pairwise_append.mp hordered).2.1).1 s hs
      have hlt := (position?_bounds ht).2
      have hge := (position?_bounds hat).1
      omega

/-- The error points at a bracket that is open exactly if the first child that holds the
character is the bracket itself and comes before the missing one. -/
theorem pointsAtOpen_iff (hlaid : n.Everywhere (LaidOut source))
    (hnamed : n.Everywhere (AsNamed source)) (hfilled : n.Filled source)
    (hchild : n.children[i]? = some m) (hcloses : openingFor? m.info.name = some d) :
    PointsAtOpen file n i m.info d (ofMissing file source (some n.info) m.info) ↔
      ∀ t, n.children.find? (holds source d) = some t → t.Opens d ∧ t ∈ n.children.take i := by
  obtain ⟨hforward, ⟨hstart, hstop⟩, hnested, hordered⟩ := hlaid.here
  have hopens {s : Concrete} (hs : s ∈ n.children) (hopen : s.Opens d) :
      position? source d s.info.start s.info.stop = some s.info.start :=
    hopen.position? (hnamed.child hs).here
  have hfound : position? source d n.info.start n.info.stop =
      n.children.findSome? fun c => position? source d c.info.start c.info.stop :=
    position?_children (isOpening_of_openingFor? hcloses) hstart hstop hforward
      (fun c hc => (hlaid.child hc).here) hnested hordered
      (hfilled (List.ne_nil_of_mem (List.mem_of_getElem? hchild)))
  rw [ofMissing, opening?_eq hcloses, hfound]
  cases hfirst : n.children.findSome? fun c => position? source d c.info.start c.info.stop with
  | none =>
    -- No child holds the character, so none is the bracket.
    rw [List.findSome?_eq_none_iff] at hfirst
    constructor
    · intro _ t ht
      have hholds := List.find?_some ht
      rw [holds, hfirst t (List.mem_of_find?_eq_some ht)] at hholds
      cases hholds
    · intro _
      refine .inr ⟨fun s hs hopen => ?_, rfl⟩
      have hnone := hfirst s (List.mem_of_mem_take hs)
      rw [hopens (List.mem_of_mem_take hs) hopen] at hnone
      cases hnone
  | some offset =>
    obtain ⟨t, hfind, ht, honly⟩ := exists_first_holding hordered hfirst
    rw [hfind]
    constructor
    · rintro (⟨s, hs, hopen, heq⟩ | ⟨-, heq⟩)
      · have hat := hopens (List.mem_of_mem_take hs) hopen
        obtain ⟨rfl⟩ : offset = s.info.start := by
          injection heq with _ _ hopening _
          injection hopening
        have hst : s = t := honly s (List.mem_of_mem_take hs) hat
        rintro _ ⟨⟩
        rw [← hst]
        exact ⟨hopen, hs⟩
      · cases heq
    · intro h
      obtain ⟨hopen, htake⟩ := h t rfl
      obtain rfl := Option.some.inj ((hopens (List.mem_of_find?_eq_some hfind) hopen).symm.trans ht)
      exact .inl ⟨t, htake, hopen, rfl⟩

/-! ## Reported errors -/

variable {c : Concrete} {parent : Option Info} {e : SyntaxError}

theorem exists_faultAt_of_mem_collect (h : e ∈ collect file source parent c) :
    ∃ p, c.FaultAt p ∧ at? file source parent c p = some e := by
  induction c using Concrete.induct generalizing parent with
  | node info children ih =>
    cases hfault : info.isFault with
    | true =>
      rw [collect_of_fault hfault, List.mem_singleton] at h
      exact ⟨[], faultAt_nil.mpr hfault, by rw [h]; rfl⟩
    | false =>
      rw [collect_of_sound hfault, collectIn_eq, List.mem_flatMap] at h
      obtain ⟨d, hd, he⟩ := h
      have hmem := (List.mem_filter.mp hd).1
      obtain ⟨p, hp, hat⟩ := ih d hmem he
      obtain ⟨i, hi⟩ := List.mem_iff_getElem?.mp hmem
      refine ⟨i :: p, faultAt_cons.mpr ⟨d, hi, hp⟩, ?_⟩
      rw [at?, show (Concrete.node info children).children[i]? = some d from hi]
      exact hat

theorem at?_concat {q : Tree.Place} (hparent : c.at? q = some n)
    (hchild : n.children[i]? = some m) :
    at? file source parent c (q ++ [i]) = some (ofFault file source (some n.info) m.info) := by
  induction q generalizing c parent with
  | nil =>
    obtain rfl := Option.some.inj hparent
    rw [List.nil_append, at?, hchild]
    rfl
  | cons j q ih =>
    obtain ⟨child, hfound, hparent⟩ := at?_cons_eq_some.mp hparent
    rw [List.cons_append, at?, hfound]
    exact ih hparent

theorem closes_of_unclosed {info : Info} {file' : String} {opening stop : Extent}
    (h : ofFault file source parent info = .unclosed file' d opening stop) :
    info.error = false ∧ openingFor? info.name = some d ∧ ∃ p, parent = some p := by
  rw [ofFault] at h
  split at h
  · cases h
  · next herror =>
    rw [ofMissing] at h
    split at h
    · next hopening =>
      cases h
      simp only [opening?, Option.bind_eq_bind, Option.bind_eq_some_iff] at hopening
      obtain ⟨delimiter, hcloses, p, hp, text, -, offset, -, heq⟩ := hopening
      cases heq
      exact ⟨Bool.eq_false_iff.mpr herror, hcloses, p, hp⟩
    · cases h

theorem exists_lacks_of_unclosed {p : Tree.Place} {file' : String} {opening stop : Extent}
    (hfault : c.FaultAt p)
    (h : at? file source none c p = some (.unclosed file' d opening stop)) :
    ∃ q n i m, p = q ++ [i] ∧ c.Lacks q n i m d := by
  rcases List.eq_nil_or_concat p with rfl | ⟨q, i, rfl⟩
  · obtain ⟨-, -, p, hp⟩ := closes_of_unclosed (Option.some.inj h)
    cases hp
  · rw [List.concat_eq_append] at hfault h ⊢
    obtain ⟨m, hm, hfault⟩ := hfault
    rw [Concrete.at?_append, Option.bind_eq_some_iff] at hm
    obtain ⟨n, hparent, hm⟩ := hm
    obtain ⟨child, hchild, hm⟩ := at?_cons_eq_some.mp hm
    obtain rfl := Option.some.inj hm
    rw [at?_concat hparent hchild] at h
    obtain ⟨herror, hcloses, -⟩ := closes_of_unclosed (Option.some.inj h)
    rw [Info.isFault, herror, Bool.false_or] at hfault
    exact ⟨q, n, i, child, rfl, hparent, hchild, hfault, herror, hcloses⟩

end SyntaxError

namespace Parsed

open Concrete SyntaxError

/-- A bracket is only reported as unclosed where a closing one is missing.  There the error
points at an opening bracket beside the missing one, or there is none and the error tells of the
missing one alone, exactly if the first sibling whose text holds such a bracket, if any does, is
that bracket itself and comes before the missing one. -/
theorem unclosed_points_at_open_iff (file source : String) {c : Concrete}
    (hlaid : c.Everywhere (LaidOut source.toList))
    (hnamed : c.Everywhere (AsNamed source.toList))
    (hfilled : c.Everywhere (Filled source.toList)) :
    (∀ file' d opening stop,
        .unclosed file' d opening stop ∈ (ofConcrete file source c).errors →
        ∃ q n i m, c.Lacks q n i m d ∧
          SyntaxError.at? file source.toList none c (q ++ [i]) =
            some (.unclosed file' d opening stop)) ∧
      ∀ {q n i m d}, c.Lacks q n i m d → ∃ e,
        SyntaxError.at? file source.toList none c (q ++ [i]) = some e ∧
          (PointsAtOpen file n i m.info d e ↔
            ∀ t, n.children.find? (holds source.toList d) = some t →
              t.Opens d ∧ t ∈ n.children.take i) := by
  constructor
  · intro file' d opening stop h
    have hcollect : SyntaxError.unclosed file' d opening stop ∈
        collect file source.toList none c := by
      unfold ofConcrete at h
      dsimp only at h
      split at h
      · exact h
      · cases h
    obtain ⟨p, hp, hat⟩ := exists_faultAt_of_mem_collect hcollect
    obtain ⟨q, n, i, m, rfl, hlacks⟩ := exists_lacks_of_unclosed hp hat
    exact ⟨q, n, i, m, hlacks, hat⟩
  · intro q n i m d h
    refine ⟨_, at?_concat h.parent h.child, ?_⟩
    rw [ofFault, h.no_error]
    exact pointsAtOpen_iff (hlaid.at? h.parent) (hnamed.at? h.parent) (hfilled.at? h.parent).here
      h.child h.closes

/-- The subscript `a[0][1` of `a[0][1;`, which lacks a closing bracket. -/
def openSubscript : Concrete :=
  .node ⟨"subscript_expression", none, true, false, false, true, 0, 6⟩
    [.node ⟨"subscript_expression", some "object", true, false, false, false, 0, 4⟩
      [.node ⟨"identifier", some "object", true, false, false, false, 0, 1⟩ [], token "[" 1,
        .node ⟨"number", some "index", true, false, false, false, 2, 3⟩ [], token "]" 3],
      token "[" 4, .node ⟨"number", some "index", true, false, false, false, 5, 6⟩ [],
      supposed "]" 6]

/-- The tree of `a[0][1;`. -/
def openAccess : Concrete :=
  .node ⟨"program", none, true, false, false, true, 0, 7⟩
    [.node ⟨"expression_statement", none, true, false, false, true, 0, 7⟩
      [openSubscript, token ";" 6]]

/-- The bracket at offset 4 is open, and the error points at the closed one at offset 1. -/
theorem openAccess_points_at_closed :
    (openAccess.Everywhere (LaidOut "a[0][1;".toList) ∧
      openAccess.Everywhere (AsNamed "a[0][1;".toList) ∧
      openAccess.Everywhere (Filled "a[0][1;".toList)) ∧
    openAccess.Lacks [0, 0] openSubscript 3 (supposed "]" 6) '[' ∧
    (ofConcrete "a.ts" "a[0][1;" openAccess).errors = [.unclosed "a.ts" '[' ⟨1, 1⟩ ⟨6, 0⟩] ∧
    ¬PointsAtOpen "a.ts" openSubscript 3 (supposed "]" 6).info '['
      (.unclosed "a.ts" '[' ⟨1, 1⟩ ⟨6, 0⟩) := by
  have hlaid : openAccess.Everywhere (LaidOut "a[0][1;".toList) := by decide
  have hnamed : openAccess.Everywhere (AsNamed "a[0][1;".toList) := by decide
  have hfilled : openAccess.Everywhere (Filled "a[0][1;".toList) := by decide
  have hlacks : openAccess.Lacks [0, 0] openSubscript 3 (supposed "]" 6) '[' :=
    ⟨rfl, rfl, rfl, rfl, rfl⟩
  refine ⟨⟨hlaid, hnamed, hfilled⟩, hlacks, by decide, fun hpoints => ?_⟩
  obtain ⟨e, he, hiff⟩ :=
    (unclosed_points_at_open_iff "a.ts" "a[0][1;" hlaid hnamed hfilled).2 hlacks
  obtain rfl : SyntaxError.unclosed "a.ts" '[' ⟨1, 1⟩ ⟨6, 0⟩ = e := Option.some.inj he
  obtain ⟨hopen, -⟩ := hiff.mp hpoints _ rfl
  cases hopen.anonymous

end Parsed
end Reify
