/-
Where a refusal points.

Each failure of lowering has a cause at a node of the tree that was lowered.  What is refused
quotes the text of that node and points at its place, never the text of one node and the place
of another (`Cause.pointsAt`).  In the syntax tree of a source unit every node lies inside those
above it and its text is what its span cuts from the source, so the error that stands for a
reflected function points into its slot and quotes what stands there.
-/
import Reify.Proofs.Concrete.Layout
import Reify.Proofs.Lowering.Fault

namespace Reify

open Lowering

/-- The error quotes the text of `d` and points at the place of `d`. -/
def LoweringError.PointsAt (e : LoweringError) (d : Tree) : Prop :=
  e.text = d.text ∧ d.span.extent? = some e.span

def LoweringError.PointsInto (e : LoweringError) (t : Tree) : Prop :=
  ∃ p d, t.at? p = some d ∧ e.PointsAt d

/-- One of the functions that lower `t`, whole or in part, refuses with the error `e`. -/
inductive Refuses (o : Oracle) (t : Tree) (e : LoweringError) : Prop
  | expr (h : lowerExpr o t = .error (.refused e))
  | element (h : lowerElement o t = .error (.refused e))
  | statement (h : lowerStatement o t = .error (.refused e))
  | block (h : lowerBlock o t = .error (.refused e))
  | function (flavor : FunctionFlavor) (drop : Nat)
      (h : lowerFunction o flavor drop t = .error (.refused e))
  | arguments (h : bindArguments o t = .error (.refused e))

variable {o : Oracle} {t d : Tree} {e : LoweringError}

/-! ## Causes -/

theorem refusal_pointsAt {error : String → Extent → LoweringError}
    (htext : ∀ text place, (error text place).text = text)
    (hspan : ∀ text place, (error text place).span = place)
    (h : Failure.refusal d.info error = .refused e) : e.PointsAt d := by
  unfold Failure.refusal at h
  split at h
  · next place hplace =>
    obtain rfl := Failure.refused.inj h
    exact ⟨htext d.info.text place, by rw [hspan]; exact hplace⟩
  · cases h

theorem Cause.pointsAt (h : Cause o d (.refused e)) : e.PointsAt d := by
  generalize hf : Failure.refused e = f at h
  cases h with
  | construct kind => exact refusal_pointsAt (fun _ _ => rfl) (fun _ _ => rfl) hf.symm
  | operator token => exact refusal_pointsAt (fun _ _ => rfl) (fun _ _ => rfl) hf.symm
  | overloaded many =>
    obtain ⟨count, rfl⟩ := usableSignature_eq_error many
    exact refusal_pointsAt (fun _ _ => rfl) (fun _ _ => rfl) hf.symm
  | bodyless _ _ => exact refusal_pointsAt (fun _ _ => rfl) (fun _ _ => rfl) hf.symm
  | cut _ => cases hf

theorem Blamed.pointsInto (h : Blamed o t (.refused e)) : e.PointsInto t := by
  obtain ⟨p, d, hd, hcause⟩ := h
  exact ⟨p, d, hd, hcause.pointsAt⟩

theorem lowerFunction_pointsInto {flavor : FunctionFlavor} {drop : Nat}
    (h : lowerFunction o flavor drop t = .error (.refused e)) : e.PointsInto t := by
  cases hlike : t.isFunctionLike with
  | true => exact (lowerFunction_fails o flavor drop hlike _ h).pointsInto
  | false =>
    rw [lowerFunction_of_not_function o flavor drop hlike] at h
    have hpoints : e.PointsAt t :=
      refusal_pointsAt (fun _ _ => rfl) (fun _ _ => rfl) (Except.error.inj h)
    exact ⟨[], t, rfl, hpoints⟩

theorem bindArguments_blamed (o : Oracle) (t : Tree) :
    FailsBy (Blamed o t) (bindArguments o t) := by
  refine assemble_arguments_fails (fun f hf => .here (.overloaded hf)) fun r hr => ?_
  obtain ⟨c, hc, rfl⟩ := List.mem_map.mp hr
  obtain ⟨list, hlist, hchild⟩ := Tree.exists_list_of_mem_callArguments hc
  exact ((blames o c).part .element).mono fun f hf => .child hlist (.child hchild hf)

/-- Whatever lowers a tree, what it refuses points at a node of the tree. -/
theorem Refuses.pointsInto (h : Refuses o t e) : e.PointsInto t := by
  cases h with
  | expr h => exact (lowerExpr_fails o t _ h).pointsInto
  | element h => exact ((blames o t).part .element _ h).pointsInto
  | statement h => exact ((blames o t).statement _ h).pointsInto
  | block h => exact ((blames o t).part .block _ h).pointsInto
  | function flavor drop h => exact lowerFunction_pointsInto h
  | arguments h => exact (bindArguments_blamed o t _ h).pointsInto

/-! ## Source units -/

/-- The span of a node cuts its text from the source. -/
def Tree.Quotes (source : String) (n : Tree) : Prop := n.span.slice? source = some n.text

instance (source : String) (n : Tree) : Decidable (n.Quotes source) :=
  inferInstanceAs (Decidable (_ = _))

def Extent.Within (x : Extent) (s : Span) : Prop :=
  s.start.toNat ≤ x.offset ∧ x.offset + x.length ≤ s.stop.toNat

instance (x : Extent) (s : Span) : Decidable (x.Within s) := inferInstanceAs (Decidable (_ ∧ _))

def Extent.slice? (x : Extent) (source : String) : Option String :=
  (Text.slice? source.toList x.offset (x.offset + x.length)).map String.ofList

theorem Text.exists_slice? {cs : List Char} {start stop : Nat} (hstart : Boundary cs start)
    (hstop : Boundary cs stop) (hle : start ≤ stop) : ∃ ms, slice? cs start stop = some ms := by
  obtain ⟨front, rest, rfl, rfl⟩ := hstart
  obtain ⟨ms, behind, rfl, rfl⟩ := hstop.split hle
  rw [← List.append_assoc, byteLength_append]
  exact ⟨ms, slice?_append front ms behind⟩

/-- Every node of the syntax tree of a source of less than 4 GiB has the text at its span. -/
theorem Concrete.everywhere_quotes_toTree {source : String} {c : Concrete}
    (h : c.Everywhere (LaidOut source.toList))
    (hsize : Text.byteLength source.toList < UInt32.size) :
    (c.toTree source).Everywhere (Tree.Quotes source) := by
  refine h.toTreeIn (fun n field hn => ?_) none
  obtain ⟨hstart, hstop⟩ := hn.here.toNat_span hsize field
  obtain ⟨hforward, ⟨hfrom, hto⟩, -, -⟩ := hn.here
  obtain ⟨ms, hms⟩ := Text.exists_slice? hfrom hto hforward
  have htext : (toTreeIn source.toList field n).text =
      textAt source.toList (toTreeIn source.toList field n).span := by
    obtain ⟨info, children⟩ := n
    rfl
  rw [Tree.Quotes, htext, Span.slice?, textAt, hstart, hstop, hms]
  rfl

theorem Tree.LaidOut.covers {n : Tree} (h : n.LaidOut) : n.Covers := ⟨h.1, h.2.1⟩

theorem LoweringError.PointsAt.quotes {source : String} {slot : Span} (h : e.PointsAt d)
    (hquotes : d.Quotes source) (hwithin : d.span.Within slot) :
    e.span.Within slot ∧ e.span.slice? source = some e.text := by
  obtain ⟨htext, hspan⟩ := h
  obtain ⟨hle, hplace⟩ := Option.ite_none_right_eq_some.mp hspan
  have hforward : d.span.start.toNat ≤ d.span.stop.toNat := UInt32.le_iff_toNat_le.mp hle
  have hafter : slot.start.toNat ≤ d.span.start.toNat := UInt32.le_iff_toNat_le.mp hwithin.1
  have hbefore : d.span.stop.toNat ≤ slot.stop.toNat := UInt32.le_iff_toNat_le.mp hwithin.2
  have hend : d.span.start.toNat + (d.span.stop.toNat - d.span.start.toNat) =
      d.span.stop.toNat := by omega
  rw [← Option.some.inj hplace, htext, Extent.Within, Extent.slice?, hend]
  exact ⟨⟨hafter, hbefore⟩, hquotes⟩

theorem LoweringError.label_eq_span {label : String × Extent}
    (h : label ∈ e.diagnostic.labels) : label.2 = e.span := by
  cases e <;>
    · obtain rfl := List.mem_singleton.mp h
      rfl

/-- What any of the functions of lowering refuses quotes the text and points at the place of one
and the same node, which is the lowered tree or below it.  So in the syntax tree of a source
unit, the error in place of a reflected function, and the diagnostic of its refusal, lie inside
the slot of the function, and the text it quotes is the source at that place. -/
theorem refusals_point_into_tree (o : Oracle) :
    (∀ t e, Refuses o t e → ∃ p d, t.at? p = some d ∧ e.text = d.text ∧
      d.span.extent? = some e.span) ∧
    ∀ (source : String) (c : Concrete), c.Everywhere (Concrete.LaidOut source.toList) →
      Text.byteLength source.toList < UInt32.size →
      ∀ p slot drop e, (c.toTree source).at? p = some slot → lowerReflected o drop slot = .err e →
        ∃ cause, lowerFunction o .declaration drop slot = .error (.refused cause) ∧
          e = cause.toErrorValue ∧ cause.span.Within slot.span ∧
          (∀ label ∈ cause.diagnostic.labels, label.2 = cause.span) ∧
          cause.span.slice? source = some cause.text := by
  refine ⟨fun t e h => h.pointsInto, ?_⟩
  intro source c hlaid hsize p slot drop e hslot herr
  have hplaced : slot.Everywhere Tree.LaidOut :=
    (Concrete.everywhere_laidOut_toTree hlaid hsize).at? hslot
  have hquoted : slot.Everywhere (Tree.Quotes source) :=
    (Concrete.everywhere_quotes_toTree hlaid hsize).at? hslot
  have hcovers : slot.Everywhere Tree.Covers := fun q n hn => (hplaced q n hn).covers
  obtain ⟨f, hfails, hnode⟩ := lowerReflected_eq_err herr
  obtain ⟨cause, rfl⟩ := lowerFunction_refused hcovers hfails
  obtain ⟨q, d, hd, hpoints⟩ := lowerFunction_pointsInto hfails
  obtain ⟨hwithin, hslice⟩ := hpoints.quotes (hquoted q d hd) (hplaced.within hd)
  exact ⟨cause, hfails, (Node.err.inj hnode).symm, hwithin,
    fun _ => LoweringError.label_eq_span, hslice⟩

/-- The tree of `f(()=>[é,a**b])`, whose item `a**b` has an operator without a symbol. -/
def powerItem : Concrete :=
  .node ⟨"program", none, true, false, false, false, 0, 16⟩
    [.node ⟨"call_expression", none, true, false, false, false, 0, 16⟩
      [.node ⟨"identifier", some "function", true, false, false, false, 0, 1⟩ [],
        .node ⟨"arguments", some "arguments", true, false, false, false, 1, 16⟩
          [.node ⟨"(", none, false, false, false, false, 1, 2⟩ [],
            .node ⟨"arrow_function", none, true, false, false, false, 2, 15⟩
              [.node ⟨"formal_parameters", some "parameters", true, false, false, false, 2, 4⟩ [],
                .node ⟨"array", some "body", true, false, false, false, 6, 15⟩
                  [.node ⟨"[", none, false, false, false, false, 6, 7⟩ [],
                    .node ⟨"identifier", none, true, false, false, false, 7, 9⟩ [],
                    .node ⟨",", none, false, false, false, false, 9, 10⟩ [],
                    .node ⟨"binary_expression", none, true, false, false, false, 10, 14⟩
                      [.node ⟨"identifier", some "left", true, false, false, false, 10, 11⟩ [],
                        .node ⟨"**", some "operator", false, false, false, false, 11, 13⟩ [],
                        .node ⟨"identifier", some "right", true, false, false, false, 13, 14⟩ []],
                    .node ⟨"]", none, false, false, false, false, 14, 15⟩ []]],
            .node ⟨")", none, false, false, false, false, 15, 16⟩ []]]]

theorem powerItem_points_into_tree :
    powerItem.Everywhere (Concrete.LaidOut "f(()=>[é,a**b])".toList) ∧
      ∃ slot, (powerItem.toTree "f(()=>[é,a**b])").at? [0, 1, 1] = some slot ∧
        lowerReflected .noTypes 0 slot =
          .err ⟨"UnsupportedOperatorError", "unsupported operator `**` in `a**b`"⟩ ∧
        Refuses .noTypes slot (.unsupportedOperator "**" "a**b" ⟨10, 4⟩) ∧
        (∃ p d, slot.at? p = some d ∧ "a**b" = d.text ∧ d.span.extent? = some ⟨10, 4⟩) ∧
        ∃ cause : LoweringError, cause.span.Within slot.span ∧
          cause.span.slice? "f(()=>[é,a**b])" = some cause.text := by
  have hlaid : powerItem.Everywhere (Concrete.LaidOut "f(()=>[é,a**b])".toList) :=
    Concrete.everywhere_of_holdsEverywhere _ (by decide)
  obtain ⟨slot, hslot⟩ : ∃ slot, (powerItem.toTree "f(()=>[é,a**b])").at? [0, 1, 1] = some slot :=
    ⟨_, rfl⟩
  have herr : lowerReflected .noTypes 0 slot =
      .err ⟨"UnsupportedOperatorError", "unsupported operator `**` in `a**b`"⟩ := by
    obtain rfl := Option.some.inj hslot
    rfl
  have hrefuses : Refuses .noTypes slot (.unsupportedOperator "**" "a**b" ⟨10, 4⟩) := by
    obtain rfl := Option.some.inj hslot
    exact .function .declaration 0 rfl
  obtain ⟨hpoints, hinside⟩ := refusals_point_into_tree .noTypes
  obtain ⟨cause, -, -, hwithin, -, hslice⟩ :=
    hinside _ powerItem hlaid (by decide) [0, 1, 1] slot 0 _ hslot herr
  exact ⟨hlaid, slot, hslot, herr, hrefuses, hpoints slot _ hrefuses, cause, hwithin, hslice⟩

end Reify
