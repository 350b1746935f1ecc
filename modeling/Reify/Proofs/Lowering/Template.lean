/-
A template is cut exactly at its holes.

Lowering walks over the holes of a template with an offset into the source unit, and cuts a
piece of text before each hole and one behind the last (`Tree.cuts`).  Where the template is
delimited by backticks, its holes and the pieces between them make up all that stands between
the backticks (`Delimited.cuts_eq_weave`), so the parts are the holes in order with the cooked
pieces between.
-/
import Mathlib.Data.List.Chain
import Reify.Proofs.Lowering.Form
import Reify.Proofs.Text.Boundary
import Reify.Proofs.Tree.Grammar
import Reify.Proofs.Tree.Layout

namespace Reify

open Lowering

/-! ## Cutting and filling -/

namespace Template

/-- The raw pieces around holes with the given spans, from offset `cursor` on. -/
def cutsFrom (text : List Char) (origin stop cursor : Nat) : List Span → List (Lowering (List Char))
  | [] => [piece text origin cursor (max (stop - 1) cursor)]
  | s :: ss => piece text origin cursor s.start.toNat :: cutsFrom text origin stop s.stop.toNat ss

/-- The literal part that a raw piece makes: what it is the spelling of, unless it is empty. -/
def cooked (raw : List Char) : List TemplatePart :=
  if raw = [] then [] else [.literal (Text.cook (String.ofList raw))]

theorem literalPart_eq (raw : List Char) : literalPart raw = cooked raw := by
  cases raw with
  | nil => rfl
  | cons c cs =>
    rw [literalPart, cooked, if_neg (List.cons_ne_nil c cs), Text.cook, String.toList_ofList]
    rfl

def fill : List (Lowering (List Char)) → List (Lowering Node) → Lowering (List TemplatePart)
  | [], _ => .ok []
  | cut :: _, [] => do return cooked (← cut)
  | cut :: cuts, outcome :: outcomes => do
    let raw ← cut
    let node ← outcome
    return cooked raw ++ .expr node :: (← fill cuts outcomes)

theorem parts_eq (text : List Char) (origin stop cursor : Nat)
    (substitutions : List (Span × Lowering Node)) :
    parts text origin stop cursor substitutions =
      fill (cutsFrom text origin stop cursor (substitutions.map Prod.fst))
        (substitutions.map Prod.snd) := by
  induction substitutions generalizing cursor with
  | nil => simp only [parts, literalPart_eq, List.map_nil, cutsFrom, fill]
  | cons x rest ih =>
    simp only [parts, literalPart_eq, ih, List.map_cons, cutsFrom, fill]

/-- Nodes with the raw pieces around them: `gap`, then each node with the piece that follows
it. -/
def interleave (gap : List Char) : List (Node × List Char) → List TemplatePart
  | [] => cooked gap
  | (node, next) :: rest => cooked gap ++ .expr node :: interleave next rest

/-- Where every piece can be cut, the parts are the pieces with what the holes lower to. -/
theorem fill_eq_ok {gap : List Char} {gaps : List (List Char)} {outcomes : List (Lowering Node)}
    (hcount : gaps.length = outcomes.length) {parts : List TemplatePart} :
    fill ((gap :: gaps).map .ok) outcomes = .ok parts ↔
      ∃ nodes : List Node, outcomes = nodes.map .ok ∧ parts = interleave gap (nodes.zip gaps) := by
  induction outcomes generalizing gap gaps parts with
  | nil =>
    obtain rfl := List.eq_nil_of_length_eq_zero hcount
    constructor
    · intro h
      exact ⟨[], rfl, (Except.ok.inj h).symm⟩
    · rintro ⟨nodes, hnodes, rfl⟩
      obtain rfl := List.map_eq_nil_iff.mp hnodes.symm
      rfl
  | cons outcome outcomes ih =>
    cases gaps with
    | nil => cases hcount
    | cons next gaps =>
      rw [List.length_cons, List.length_cons, Nat.add_right_cancel_iff] at hcount
      rw [List.map_cons, fill]
      simp only [bind_eq_ok, pure_eq_ok, ih hcount]
      constructor
      · rintro ⟨raw, hraw, node, rfl, _, ⟨nodes, rfl, rfl⟩, rfl⟩
        obtain rfl := Except.ok.inj hraw
        exact ⟨node :: nodes, rfl, rfl⟩
      · rintro ⟨nodes, hnodes, rfl⟩
        obtain ⟨node, nodes, rfl, rfl, rfl⟩ := List.map_eq_cons_iff.mp hnodes.symm
        exact ⟨gap, rfl, node, rfl, _, ⟨nodes, rfl, rfl⟩, rfl⟩

def Separated (a b : TemplatePart) : Prop := a.node?.isSome = true ∨ b.node?.isSome = true

theorem interleave_separated (gap : List Char) (entries : List (Node × List Char)) :
    (interleave gap entries).IsChain Separated := by
  have begins (raw : List Char) (node : Node) {parts : List TemplatePart}
      (h : parts.IsChain Separated) :
      (cooked raw ++ .expr node :: parts).IsChain Separated := by
    have hnode : (TemplatePart.expr node :: parts).IsChain Separated :=
      h.cons fun _ _ => .inl rfl
    unfold cooked
    split
    · exact hnode
    · exact List.isChain_cons_cons.mpr ⟨.inr rfl, hnode⟩
  induction entries generalizing gap with
  | nil =>
    rw [interleave, cooked]
    split
    · exact .nil
    · exact .singleton _
  | cons entry rest ih => exact begins gap entry.1 (ih entry.2)

end Template

/-! ## Holes -/

namespace Tree

def holes (t : Tree) : List Tree := t.children.filter isSubstitution

def cuts (t : Tree) : List (Lowering (List Char)) :=
  Template.cutsFrom t.text.toList t.span.start.toNat t.span.stop.toNat (t.span.start.toNat + 1)
    (t.holes.map span)

end Tree

def HoleLowers (o : Oracle) (hole : Tree) (n : Node) : Prop :=
  ∃ e, hole.firstNamedChild? = some e ∧ lowerExpr o e = .ok n

theorem lowerAt_substitution_eq_ok {o : Oracle} {hole : Tree} {n : Node} :
    lowerAt o .substitution hole = .ok n ↔ HoleLowers o hole n := by
  obtain ⟨info, children⟩ := hole
  have hoperand : lowerAt o .substitution (.node info children) =
      required info (lowerChildren o .value Tree.isOperand children).head? := by
    simp only [lowerAt, lowerChildren, if_pos, List.head?_cons, required_some]
  rw [hoperand, required_operand_iff, OperandForm, HoleLowers]
  simp only [lowerAt_value]

theorem lowerExpr_template {o : Oracle} {t : Tree} (h : t.kind = .templateString) :
    lowerExpr o t = do
      return .templateExpr (← Template.fill t.cuts (t.holes.map (lowerAt o .substitution))) := by
  obtain ⟨info, children⟩ := t
  have hkind : info.kind = .templateString := h
  have hlength : (children.filter isSubstitution).length =
      ((children.filter isSubstitution).map (lowerAt o .substitution)).length :=
    (List.length_map _).symm
  unfold lowerExpr
  simp only [hkind, lowerChildren_eq]
  rw [Template.assemble, Template.parts_eq, List.map_fst_zip (by simp), List.map_snd_zip (by simp)]
  rfl

namespace Text

theorem Boundary.split_middle (as bs cs : List Char) {k : Nat}
    (h : Boundary (as ++ (bs ++ cs)) k) (hle : byteLength as ≤ k)
    (hlt : k ≤ byteLength (as ++ bs)) :
    ∃ ms ds, bs = ms ++ ds ∧ byteLength (as ++ ms) = k := by
  obtain ⟨ms, rest, hrest, hlen⟩ := h.split hle
  have hms : byteLength ms ≤ byteLength bs := by
    rw [byteLength_append] at hlen hlt
    omega
  obtain ⟨ds, hds, -⟩ := exists_append_of_byteLength_le hrest.symm hms
  exact ⟨ms, ds, hds, hlen⟩

end Text

/-! ## Templates between backticks -/

/-- A template of the source: its text is what its span covers, it stands between two
backticks, and its holes lie between them, one after the other. -/
structure Delimited (source : String) (t : Tree) : Prop where
  kind : t.kind = .templateString
  text : t.span.slice? source = some t.text
  backticks : ∃ body, t.text.toList = '`' :: (body ++ ['`'])
  inside : ∀ c ∈ t.holes, t.span.start.toNat < c.span.start.toNat ∧
    c.span.start ≤ c.span.stop ∧ c.span.stop.toNat < t.span.stop.toNat
  boundaries : ∀ c ∈ t.holes, Text.Boundary source.toList c.span.start.toNat ∧
    Text.Boundary source.toList c.span.stop.toNat
  ordered : t.holes.Pairwise fun a b => a.span.Before b.span

namespace Template

theorem piece_append {text : List Char} (front ms tail : List Char) (origin : Nat)
    (htext : text = front ++ ms ++ tail) :
    piece text origin (origin + Text.byteLength front)
      (origin + Text.byteLength (front ++ ms)) = .ok ms := by
  have hcut : Text.slice? text (Text.byteLength front) (Text.byteLength (front ++ ms)) =
      some ms := by
    rw [htext, Text.byteLength_append]
    exact Text.slice?_append front ms tail
  rw [piece, if_neg (by omega), Nat.add_sub_cancel_left, Nat.add_sub_cancel_left, hcut]
  rfl

variable {source text before behind : List Char}

theorem byteLength_quoted (front rest : List Char) (htext : text = front ++ rest ++ ['`']) :
    Text.byteLength (before ++ text) =
      Text.byteLength (before ++ front) + Text.byteLength rest + 1 := by
  have hquote : Text.byteLength ['`'] = 1 := rfl
  simp only [htext, Text.byteLength_append]
  omega

/-- What is left of the text before its last backtick begins with the piece that is cut before
the next span and the slot that the span covers. -/
theorem exists_piece_slot (front rest : List Char) {s : Span}
    (hsource : source = before ++ text ++ behind) (htext : text = front ++ rest ++ ['`'])
    (hstart : Text.Boundary source s.start.toNat) (hstop : Text.Boundary source s.stop.toNat)
    (hfirst : Text.byteLength (before ++ front) ≤ s.start.toNat)
    (hforward : s.start.toNat ≤ s.stop.toNat)
    (hlast : s.stop.toNat < Text.byteLength (before ++ text)) :
    ∃ gap slot left : List Char, rest = gap ++ (slot ++ left) ∧
      Text.byteLength (before ++ (front ++ gap ++ slot)) = s.stop.toNat ∧
      piece text (Text.byteLength before) (Text.byteLength (before ++ front)) s.start.toNat =
        .ok gap ∧
      Text.slice? source s.start.toNat s.stop.toNat = some slot := by
  have hclose : Text.byteLength (before ++ text) = _ := byteLength_quoted front rest htext
  obtain ⟨gap, rest, rfl, hgap⟩ := Text.Boundary.split_middle (before ++ front) rest
    ('`' :: behind) (by simpa [hsource, htext] using hstart) hfirst
    (by rw [Text.byteLength_append]; omega)
  rw [Text.byteLength_append gap] at hclose
  obtain ⟨slot, left, rfl, hslot⟩ := Text.Boundary.split_middle
    (before ++ front ++ gap) rest ('`' :: behind) (by simpa [hsource, htext] using hstop) (by omega)
    (by rw [Text.byteLength_append, Text.byteLength_append _ gap]; omega)
  refine ⟨gap, slot, left, rfl, ?_, ?_, ?_⟩
  · rw [← hslot]
    simp only [List.append_assoc]
  · have h := piece_append front gap (slot ++ left ++ ['`']) (Text.byteLength before)
      (htext.trans (by simp only [List.append_assoc]))
    rw [← Text.byteLength_append, ← Text.byteLength_append, ← List.append_assoc, hgap] at h
    exact h
  · have h := Text.slice?_append (before ++ front ++ gap) slot (left ++ '`' :: behind)
    rw [← Text.byteLength_append, hgap, hslot] at h
    rw [← h, hsource, htext]
    simp only [List.append_assoc, List.singleton_append]

/-- What is left of the text before its last backtick falls into pieces and slots: the pieces
are those that are cut around the spans, and the slots are what the spans cover. -/
theorem cutsFrom_eq_weave (front rest : List Char) (spans : List Span)
    (hsource : source = before ++ text ++ behind) (htext : text = front ++ rest ++ ['`'])
    (hboundary : ∀ s ∈ spans, Text.Boundary source s.start.toNat ∧
      Text.Boundary source s.stop.toNat)
    (hinside : ∀ s ∈ spans, Text.byteLength (before ++ front) ≤ s.start.toNat ∧
      s.start ≤ s.stop ∧ s.stop.toNat < Text.byteLength (before ++ text))
    (hordered : spans.Pairwise Span.Before) :
    ∃ (gap : List Char) (gaps slots : List (List Char)),
      cutsFrom text (Text.byteLength before) (Text.byteLength (before ++ text))
        (Text.byteLength (before ++ front)) spans = (gap :: gaps).map .ok ∧
      spans.map (fun s => Text.slice? source s.start.toNat s.stop.toNat) = slots.map some ∧
      gaps.length = spans.length ∧ rest = Text.weave gap (slots.zip gaps) := by
  induction spans generalizing front rest with
  | nil =>
    refine ⟨rest, [], [], ?_, rfl, rfl, rfl⟩
    have hstop : max (Text.byteLength (before ++ text) - 1) (Text.byteLength (before ++ front)) =
        Text.byteLength before + Text.byteLength (front ++ rest) := by
      rw [byteLength_quoted front rest htext]
      simp only [Text.byteLength_append]
      omega
    rw [cutsFrom, hstop, Text.byteLength_append, piece_append front rest _ _ htext]
    rfl
  | cons s spans ih =>
    obtain ⟨hfirst, hforward, hlast⟩ := hinside s List.mem_cons_self
    obtain ⟨hstart, hstop⟩ := hboundary s List.mem_cons_self
    obtain ⟨hbefore, hordered⟩ := List.pairwise_cons.mp hordered
    obtain ⟨gap, slot, left, rfl, hslot, hpiece, hslice⟩ := exists_piece_slot front rest hsource
      htext hstart hstop hfirst (UInt32.le_iff_toNat_le.mp hforward) hlast
    -- The cursor goes on behind the slot, before which no later span begins.
    have hlater (r : Span) (hr : r ∈ spans) :
        Text.byteLength (before ++ (front ++ gap ++ slot)) ≤ r.start.toNat ∧
          r.start ≤ r.stop ∧ r.stop.toNat < Text.byteLength (before ++ text) := by
      rw [hslot]
      exact ⟨UInt32.le_iff_toNat_le.mp (hbefore r hr), (hinside r (List.mem_cons_of_mem s hr)).2⟩
    obtain ⟨next, gaps, slots, hcuts, hslots, hcount, hrest⟩ :=
      ih (front ++ gap ++ slot) left (by simp only [htext, List.append_assoc])
        (fun r hr => hboundary r (List.mem_cons_of_mem s hr)) hlater hordered
    rw [hslot] at hcuts
    refine ⟨gap, next :: gaps, slot :: slots, ?_, ?_, ?_, ?_⟩
    · rw [cutsFrom, hpiece, hcuts]
      rfl
    · rw [List.map_cons, hslice, hslots]
      rfl
    · rw [List.length_cons, hcount, List.length_cons]
    · rw [List.zip_cons_cons, Text.weave, ← hrest]

end Template

/-! ## The whole template -/

variable {o : Oracle} {source : String} {t : Tree}

theorem Delimited.cuts_eq_weave (h : Delimited source t) :
    ∃ (gap : List Char) (gaps slots : List (List Char)),
      t.cuts = (gap :: gaps).map .ok ∧
      t.holes.map (fun c => Text.slice? source.toList c.span.start.toNat c.span.stop.toNat) =
        slots.map some ∧
      gaps.length = t.holes.length ∧
      t.text.toList = '`' :: (Text.weave gap (slots.zip gaps) ++ ['`']) := by
  obtain ⟨body, hbody⟩ := h.backticks
  obtain ⟨text, htext, heq⟩ := Option.map_eq_some_iff.mp h.text
  obtain ⟨before, behind, hsource, hstart, hstop⟩ := Text.slice?_eq_some htext
  have hchars : text = t.text.toList := by rw [← heq, String.toList_ofList]
  rw [hchars] at hsource hstop
  have hfront : Text.byteLength (before ++ ['`']) = t.span.start.toNat + 1 := by
    rw [Text.byteLength_append, hstart]
    rfl
  obtain ⟨gap, gaps, slots, hcuts, hslots, hcount, hweave⟩ :=
    Template.cutsFrom_eq_weave ['`'] body (t.holes.map Tree.span) hsource hbody
      (List.forall_mem_map.mpr h.boundaries)
      (List.forall_mem_map.mpr fun c hc => by
        obtain ⟨hfirst, hforward, hlast⟩ := h.inside c hc
        rw [hfront, hstop]
        exact ⟨hfirst, hforward, hlast⟩)
      (List.pairwise_map.mpr h.ordered)
  rw [hstart, hstop, hfront] at hcuts
  rw [List.map_map] at hslots
  rw [List.length_map] at hcount
  exact ⟨gap, gaps, slots, hcuts, hslots, hcount, by rw [hbody, ← hweave]⟩

/-- A template between backticks is all pieces and holes, one after the other.  It lowers as
soon as every hole does, and its parts are the holes with the cooked pieces that are not empty
between them. -/
theorem template_cut_at_holes (o : Oracle) (h : Delimited source t) :
    ∃ (gap : List Char) (gaps slots : List (List Char)),
      t.text.toList = '`' :: (Text.weave gap (slots.zip gaps) ++ ['`']) ∧
      t.holes.map (fun c => Text.slice? source.toList c.span.start.toNat c.span.stop.toNat) =
        slots.map some ∧
      gaps.length = t.holes.length ∧
      (∀ n, lowerExpr o t = .ok n ↔ ∃ nodes, List.Forall₂ (HoleLowers o) t.holes nodes ∧
        n = .templateExpr (Template.interleave gap (nodes.zip gaps))) ∧
      ∀ nodes : List Node,
        (Template.interleave gap (nodes.zip gaps)).IsChain Template.Separated := by
  obtain ⟨gap, gaps, slots, hcuts, hslots, hcount, htext⟩ := h.cuts_eq_weave
  refine ⟨gap, gaps, slots, htext, hslots, hcount, fun n => ?_, fun nodes =>
    Template.interleave_separated gap _⟩
  have houtcomes : gaps.length = (t.holes.map (lowerAt o .substitution)).length := by
    rw [List.length_map, hcount]
  have hlowered (nodes : List Node) : t.holes.map (lowerAt o .substitution) = nodes.map .ok ↔
      List.Forall₂ (HoleLowers o) t.holes nodes := by
    simp only [map_eq_map_ok_iff, lowerAt_substitution_eq_ok]
  rw [lowerExpr_template h.kind, hcuts]
  simp only [bind_eq_ok, pure_eq_ok, Template.fill_eq_ok houtcomes, hlowered]
  constructor
  · rintro ⟨_, ⟨nodes, hnodes, rfl⟩, rfl⟩
    exact ⟨nodes, hnodes, rfl⟩
  · rintro ⟨nodes, hnodes, rfl⟩
    exact ⟨_, ⟨nodes, hnodes, rfl⟩, rfl⟩

/-- A call whose argument is a template with two holes next to each other, behind a character
of two bytes. -/
def greeting : String := "f(`é$\x7ba\x7d$\x7bb\x7d!`)"

def greetingTemplate : Tree :=
  .namedNode .templateString none 2 15 "`é$\x7ba\x7d$\x7bb\x7d!`"
    [.namedNode .templateSubstitution none 5 9 "$\x7ba\x7d"
      [.namedNode .identifier none 7 8 "a" []],
    .namedNode .templateSubstitution none 9 13 "$\x7bb\x7d"
      [.namedNode .identifier none 11 12 "b" []]]

theorem greeting_cut_at_holes :
    Delimited greeting greetingTemplate ∧
      lowerExpr .noTypes greetingTemplate =
        .ok (.templateExpr [.literal "é", .expr (.identifier "a"), .expr (.identifier "b"),
          .literal "!"]) ∧
      ∃ (gap : List Char) (gaps : List (List Char)),
        (∀ n, lowerExpr .noTypes greetingTemplate = .ok n ↔
          ∃ nodes, List.Forall₂ (HoleLowers .noTypes) greetingTemplate.holes nodes ∧
            n = .templateExpr (Template.interleave gap (nodes.zip gaps))) := by
  have boundary {k : Nat} {bs : List Char} (h : Text.dropBytes? k greeting.toList = some bs) :
      Text.Boundary greeting.toList k := by
    obtain ⟨as, h⟩ := Text.dropBytes?_eq_some h
    exact ⟨as, bs, h⟩
  have h : Delimited greeting greetingTemplate :=
    { kind := rfl
      text := by decide
      backticks := ⟨"é$\x7ba\x7d$\x7bb\x7d!".toList, by decide⟩
      inside := by decide
      boundaries := List.forall_mem_cons.mpr ⟨⟨boundary rfl, boundary rfl⟩,
        List.forall_mem_cons.mpr ⟨⟨boundary rfl, boundary rfl⟩, List.forall_mem_nil _⟩⟩
      ordered := by decide }
  obtain ⟨gap, gaps, slots, -, -, -, hlowers, -⟩ := template_cut_at_holes .noTypes h
  exact ⟨h, rfl, gap, gaps, hlowers⟩

end Reify
