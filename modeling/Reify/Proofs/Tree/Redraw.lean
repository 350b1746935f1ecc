/-
Trees drawn again, in another place and without their comments.

`redraw keep place` gives every node the span that `place` makes of its own, and leaves out,
below the root, the nodes that `keep` refuses.  `withoutComments` only leaves out comments,
`moved k` only moves, and `unplaced` forgets all spans.  What is read of the children of a node
overlooks all this: a bare comment is never picked, and what is picked is drawn again
(`filter_children_redraw` and what follows from it).
-/
import Reify.Proofs.Lowering.Outcome
import Reify.Types.Declared

namespace Reify

/-! ## Spans -/

namespace Span

variable {k : Nat} {s : Span}

def moved (k : Nat) (s : Span) : Span := .ofRange (s.start.toNat + k) (s.stop.toNat + k)

/-- The span stays within 32 bits when it is moved by `k` bytes. -/
def Fits (k : Nat) (s : Span) : Prop :=
  s.start.toNat + k < UInt32.size ∧ s.stop.toNat + k < UInt32.size

instance (k : Nat) (s : Span) : Decidable (s.Fits k) := inferInstanceAs (Decidable (_ ∧ _))

theorem fits_zero (s : Span) : s.Fits 0 := ⟨s.start.toNat_lt, s.stop.toNat_lt⟩

@[simp] theorem moved_zero : moved 0 = id := by
  funext s
  simp [moved, ofRange]

theorem toNat_moved (h : s.Fits k) :
    (s.moved k).start.toNat = s.start.toNat + k ∧ (s.moved k).stop.toNat = s.stop.toNat + k :=
  ofRange_of_lt h.1 h.2

end Span

def Extent.moved (k : Nat) (e : Extent) : Extent := ⟨e.offset + k, e.length⟩

theorem Span.extent?_moved {k : Nat} {s : Span} (h : s.Fits k) :
    (s.moved k).extent? = s.extent?.map (Extent.moved k) := by
  obtain ⟨hstart, hstop⟩ := toNat_moved h
  unfold extent?
  simp only [UInt32.le_iff_toNat_le, hstart, hstop, Nat.add_le_add_iff_right,
    Nat.add_sub_add_right]
  split <;> rfl

namespace Tree

/-! ## Redrawing -/

/-- The node with the span that `place` makes of its own. -/
def Info.placed (place : Span → Span) (i : Info) : Info := { i with span := place i.span }

@[simp] theorem Info.kind_placed (place : Span → Span) (i : Info) :
    (i.placed place).kind = i.kind := rfl

@[simp] theorem Info.text_placed (place : Span → Span) (i : Info) :
    (i.placed place).text = i.text := rfl

mutual

/-- The tree with its spans placed anew, and with only those nodes below its root that `keep`
accepts. -/
def redraw (keep : Info → Bool) (place : Span → Span) : Tree → Tree
  | node info children => node (info.placed place) (redrawAll keep place children)

def redrawAll (keep : Info → Bool) (place : Span → Span) : List Tree → List Tree
  | [] => []
  | t :: ts =>
    if keep t.info then redraw keep place t :: redrawAll keep place ts
    else redrawAll keep place ts

end

theorem redrawAll_eq (keep : Info → Bool) (place : Span → Span) (ts : List Tree) :
    redrawAll keep place ts = (ts.filter fun t => keep t.info).map (redraw keep place) := by
  induction ts with
  | nil => rfl
  | cons t ts ih =>
    rw [redrawAll, ih, List.filter_cons]
    split <;> rfl

def withoutComments : Tree → Tree := redraw (fun i => i.kind != .comment) id

def moved (k : Nat) : Tree → Tree := redraw (fun _ => true) (.moved k)

/-- The tree with all its spans forgotten. -/
def unplaced : Tree → Tree := redraw (fun _ => true) fun _ => ⟨0, 0⟩

theorem moved_node (k : Nat) (info : Info) (children : List Tree) :
    (node info children).moved k = node (info.placed (.moved k)) (children.map (moved k)) := by
  rw [moved, redraw, redrawAll_eq, List.filter_eq_self.mpr fun _ _ => rfl]

theorem unplaced_node (info : Info) (children : List Tree) :
    (node info children).unplaced =
      node (info.placed fun _ => ⟨0, 0⟩) (children.map unplaced) := by
  rw [unplaced, redraw, redrawAll_eq, List.filter_eq_self.mpr fun _ _ => rfl]

/-- A comment as grammars have them: a named node that fills no field and has no parts. -/
structure BareComment (c : Tree) : Prop where
  kind : c.kind = .comment
  named : c.named = true
  field : c.field = none
  children : c.children = []

instance (c : Tree) : Decidable c.BareComment :=
  decidable_of_iff (c.kind = .comment ∧ c.named = true ∧ c.field = none ∧ c.children = [])
    ⟨fun h => ⟨h.1, h.2.1, h.2.2.1, h.2.2.2⟩, fun h => ⟨h.kind, h.named, h.field, h.children⟩⟩

/-- All that the node loses when it is redrawn are bare comments. -/
def LosesComments (keep : Info → Bool) (n : Tree) : Prop :=
  ∀ c ∈ n.children, keep c.info = false → c.BareComment

variable {keep : Info → Bool} {place : Span → Span} {t : Tree}

@[simp] theorem info_redraw (t : Tree) : (t.redraw keep place).info = t.info.placed place := by
  obtain ⟨info, children⟩ := t
  rfl

@[simp] theorem kind_redraw (t : Tree) : (t.redraw keep place).kind = t.kind := by
  rw [kind, info_redraw]
  rfl

@[simp] theorem field_redraw (t : Tree) : (t.redraw keep place).field = t.field := by
  rw [field, info_redraw]
  rfl

@[simp] theorem named_redraw (t : Tree) : (t.redraw keep place).named = t.named := by
  rw [named, info_redraw]
  rfl

@[simp] theorem text_redraw (t : Tree) : (t.redraw keep place).text = t.text := by
  rw [text, info_redraw]
  rfl

@[simp] theorem span_redraw (t : Tree) : (t.redraw keep place).span = place t.span := by
  rw [span, info_redraw]
  rfl

theorem children_redraw (t : Tree) :
    (t.redraw keep place).children =
      (t.children.filter fun c => keep c.info).map (redraw keep place) := by
  obtain ⟨info, children⟩ := t
  exact redrawAll_eq keep place children

theorem everywhere_losesComments_all (t : Tree) : t.Everywhere (LosesComments fun _ => true) :=
  fun _ _ _ _ _ hkeep => nomatch hkeep

theorem everywhere_losesComments (h : t.Everywhere fun n => n.kind = .comment → n.BareComment) :
    t.Everywhere (LosesComments fun i => i.kind != .comment) := by
  intro p n hn c hc hkeep
  obtain ⟨i, hi⟩ := List.mem_iff_getElem?.mp hc
  have hat : t.at? (p ++ [i]) = some c := by
    rw [at?_append, hn, Option.bind_some, at?_cons_of_child hi, at?_nil]
  exact h (p ++ [i]) c hat (by simpa [kind] using hkeep)

theorem unplaced_moved (k : Nat) (t : Tree) : (t.moved k).unplaced = t.unplaced := by
  induction t using induct with
  | node info children ih =>
    rw [moved_node, unplaced_node, unplaced_node, List.map_map]
    exact congrArg (node _) (List.map_congr_left ih)

/-! ## What is read of the children -/

/-- A test of nodes that passes over spans, over what is below a node, and over comments. -/
structure Overlooks (p : Tree → Bool) : Prop where
  redraw : ∀ keep place t, p (redraw keep place t) = p t
  comment : ∀ c : Tree, c.BareComment → p c = false

theorem overlooks_inField (name : String) : Overlooks (inField name) where
  redraw _ _ _ := by rw [inField, field_redraw, inField]
  comment c hc := by
    rw [inField, hc.field]
    rfl

theorem overlooks_isOperand : Overlooks isOperand where
  redraw _ _ _ := by rw [isOperand, named_redraw, kind_redraw, isOperand]
  comment c hc := by simp [isOperand, hc.kind]

theorem overlooks_token (token : String) :
    Overlooks fun c => !c.named && c.text == token where
  redraw _ _ _ := by rw [named_redraw, text_redraw]
  comment c hc := by rw [hc.named]; rfl

/-- The test is for a kind, and not for comments. -/
theorem overlooks_kind {kind : Kind} (h : kind ≠ .comment) : Overlooks fun c => c.kind == kind where
  redraw _ _ _ := by rw [kind_redraw]
  comment c hc := by
    rw [hc.kind]
    exact beq_false_of_ne h.symm

theorem filter_children_redraw (h : t.LosesComments keep) {p : Tree → Bool} (hp : Overlooks p) :
    (t.redraw keep place).children.filter p = (t.children.filter p).map (redraw keep place) := by
  rw [children_redraw, List.filter_map, List.filter_filter]
  refine congrArg _ (List.filter_congr fun c hc => ?_)
  rw [Function.comp_apply, hp.redraw]
  cases hkeep : keep c.info with
  | true => rw [Bool.and_true]
  | false => rw [hp.comment c (h c hc hkeep), Bool.false_and]

theorem map_filter_children_redraw {α : Type} (h : t.LosesComments keep) {p : Tree → Bool}
    (hp : Overlooks p) {f g : Tree → α} (hfg : ∀ c ∈ t.children, f (c.redraw keep place) = g c) :
    ((t.redraw keep place).children.filter p).map f = (t.children.filter p).map g := by
  rw [filter_children_redraw h hp, List.map_map]
  exact List.map_congr_left fun c hc => hfg c (List.mem_of_mem_filter hc)

theorem find?_children_redraw (h : t.LosesComments keep) {p : Tree → Bool} (hp : Overlooks p) :
    (t.redraw keep place).children.find? p = (t.children.find? p).map (redraw keep place) := by
  rw [← List.head?_filter, filter_children_redraw h hp, List.head?_map, List.head?_filter]

theorem any_children_redraw (h : t.LosesComments keep) {p : Tree → Bool} (hp : Overlooks p) :
    (t.redraw keep place).children.any p = t.children.any p := by
  rw [Bool.eq_iff_iff, List.any_eq_true, List.any_eq_true, ← List.find?_isSome,
    ← List.find?_isSome, find?_children_redraw h hp, Option.isSome_map]

theorem childByField?_redraw (h : t.LosesComments keep) (name : String) :
    (t.redraw keep place).childByField? name = (t.childByField? name).map (redraw keep place) :=
  find?_children_redraw h (overlooks_inField name)

theorem namedChildren_redraw (h : t.LosesComments keep) :
    (t.redraw keep place).namedChildren = t.namedChildren.map (redraw keep place) :=
  filter_children_redraw h overlooks_isOperand

theorem firstNamedChild?_redraw (h : t.LosesComments keep) :
    (t.redraw keep place).firstNamedChild? = t.firstNamedChild?.map (redraw keep place) := by
  rw [firstNamedChild?, namedChildren_redraw h, List.head?_map, firstNamedChild?]

theorem hasToken_redraw (h : t.LosesComments keep) (token : String) :
    (t.redraw keep place).hasToken token = t.hasToken token :=
  any_children_redraw h (overlooks_token token)

theorem isInvocation_redraw (t : Tree) : (t.redraw keep place).isInvocation = t.isInvocation := by
  rw [isInvocation, kind_redraw, isInvocation]

theorem callee?_redraw (h : t.LosesComments keep) :
    (t.redraw keep place).callee? = t.callee?.map (redraw keep place) := by
  rw [callee?, callee?, kind_redraw]
  cases t.kind.calleeField? with
  | none => rfl
  | some name => exact childByField?_redraw h name

theorem argumentList?_redraw (h : t.LosesComments keep) :
    (t.redraw keep place).argumentList? = t.argumentList?.map (redraw keep place) := by
  rw [argumentList?, argumentList?, isInvocation_redraw, childByField?_redraw h]
  split
  · cases t.childByField? "arguments" with
    | none => rfl
    | some list =>
      simp only [Option.map_some, kind_redraw]
      split <;> rfl
  · rfl

theorem callArguments_redraw (h : t.Everywhere (LosesComments keep)) :
    (t.redraw keep place).callArguments = t.callArguments.map (redraw keep place) := by
  rw [callArguments, callArguments, argumentList?_redraw h.here]
  cases hlist : t.argumentList? with
  | none => rfl
  | some list =>
    obtain ⟨-, j, -, hj⟩ := argumentList?_eq_some hlist
    exact namedChildren_redraw (h.child (List.mem_of_getElem? hj)).here

theorem accessPath?_redraw (h : t.Everywhere (LosesComments keep)) :
    (t.redraw keep place).accessPath? = t.accessPath? := by
  induction t using induct with
  | node info children ih =>
    have hpaths {p : Tree → Bool} (hp : Overlooks p) :
        accessPaths p (redrawAll keep place children) = accessPaths p children := by
      rw [accessPaths_eq, accessPaths_eq]
      exact map_filter_children_redraw h.here hp fun c hc => ih c hc (h.child hc)
    have hfield (name : String) :
        (node (info.placed place) (redrawAll keep place children)).childByField? name =
          ((node info children).childByField? name).map (redraw keep place) :=
      childByField?_redraw h.here name
    rw [redraw, accessPath?, accessPath?]
    simp only [Info.kind_placed, Info.text_placed, hpaths overlooks_isOperand,
      hpaths (overlooks_inField _), hfield, Option.bind_eq_bind, Option.bind_map,
      Function.comp_def, kind_redraw, text_redraw]

theorem referencePath_redraw (h : t.Everywhere (LosesComments keep)) :
    (t.redraw keep place).referencePath = t.referencePath := by
  rw [referencePath, accessPath?_redraw h, referencePath]

end Tree

/-! ## Types by declaration -/

namespace Declared

open Reify.Tree

variable {keep : Info → Bool} {place : Span → Span} {t : Tree}

theorem typeOf_redraw (d : Declared) (h : t.Everywhere (LosesComments keep)) :
    d.typeOf (t.redraw keep place) = d.typeOf t := by
  induction t using Tree.induct with
  | node info children ih =>
    have htypes {p : Tree → Bool} (hp : Overlooks p) :
        d.typesIn p (redrawAll keep place children) = d.typesIn p children := by
      rw [typesIn_eq, typesIn_eq]
      exact map_filter_children_redraw h.here hp fun c hc => ih c hc (h.child hc)
    have hfield (name : String) :
        (Tree.node (info.placed place) (redrawAll keep place children)).childByField? name =
          ((Tree.node info children).childByField? name).map (redraw keep place) :=
      childByField?_redraw h.here name
    rw [redraw, typeOf, typeOf]
    simp only [Info.kind_placed, Info.text_placed, htypes overlooks_isOperand,
      htypes (overlooks_inField _), hfield, Option.bind_eq_bind, Option.bind_map,
      Function.comp_def, elementAt, kind_redraw, text_redraw]

theorem resolvedSignature_redraw (d : Declared) (h : t.Everywhere (LosesComments keep)) :
    d.resolvedSignature (t.redraw keep place) = d.resolvedSignature t := by
  unfold resolvedSignature
  rw [callee?_redraw h.here, callArguments_redraw h, List.length_map]
  cases hcallee : t.callee? with
  | none => rfl
  | some callee =>
    have hchild : callee ∈ t.children := mem_of_callee? hcallee
    simp only [Option.map_some, Option.bind_eq_bind, Option.bind_some,
      d.typeOf_redraw (h.child hchild)]

end Declared
end Reify
