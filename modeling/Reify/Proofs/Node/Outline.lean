/-
Construction code around the children.

The outline of a node is the node without its children: its kind, its own texts, the lengths of
its lists and which optional nodes it has.  What a node writes itself is a frame, a text with a
hole for each child, and the frame is a function of the outline (`fills_arguments`).  So the
code of a node is the code of its children, in their order, with gaps around them that other
children would leave the same.  The binding of the library stands in the head of a construction
only, so the whole code is a text in which the nodes of the tree are marked in pre-order, once
each, with the head of the construction written for each mark (`write_skeleton`).
-/
import Reify.Proofs.Node.Unambiguous
import Reify.Proofs.Text.Boundary

namespace Reify

/-! ## Texts with holes -/

/-- A text with holes; `none` is a hole. -/
abbrev Frame := List (Option Char)

namespace Frame

variable {f g : Frame} {xs ys : List (List Char)} {s t : List Char}

def ofText (s : List Char) : Frame := s.map some

def hole : Frame := [none]

def separated : List Frame → Frame
  | [] => []
  | [f] => f
  | f :: g :: rest => f ++ (some ',' :: some ' ' :: separated (g :: rest))

def bracketed (fs : List Frame) : Frame := some '[' :: (separated fs ++ [some ']'])

/-- The text before the first hole, and the text after each. -/
def cut : Frame → List Char × List (List Char)
  | [] => ([], [])
  | some c :: f => (c :: (cut f).1, (cut f).2)
  | none :: f => ([], (cut f).1 :: (cut f).2)

/-- The frame with its holes filled by `xs` is the text `s`. -/
inductive Fills : Frame → List (List Char) → List Char → Prop
  | nil : Fills [] [] []
  | char {f : Frame} {xs : List (List Char)} {s : List Char} (c : Char) (rest : Fills f xs s) :
    Fills (some c :: f) xs (c :: s)
  | hole {f : Frame} {xs : List (List Char)} {s : List Char} (x : List Char)
      (rest : Fills f xs s) : Fills (none :: f) (x :: xs) (x ++ s)

namespace Fills

theorem append (hf : Fills f xs s) (hg : Fills g ys t) : Fills (f ++ g) (xs ++ ys) (s ++ t) := by
  induction hf with
  | nil => exact hg
  | char c _ ih => exact .char c ih
  | hole x _ ih =>
    rw [List.append_assoc]
    exact .hole x ih

theorem ofText (s : List Char) : Fills (ofText s) [] s := by
  induction s with
  | nil => exact .nil
  | cons c s ih => exact .char c ih

theorem single (x : List Char) : Fills Frame.hole [x] x := by
  have h : Fills Frame.hole [x] (x ++ []) := .hole x .nil
  rwa [List.append_nil] at h

/-- The filled text is the fillings with the pieces of the frame around them. -/
theorem eq_weave (h : Fills f xs s) :
    s = Text.weave (cut f).1 (xs.zip (cut f).2) ∧ (cut f).2.length = xs.length := by
  induction h with
  | nil => exact ⟨rfl, rfl⟩
  | char c _ ih =>
    obtain ⟨hs, hlength⟩ := ih
    refine ⟨?_, hlength⟩
    rw [hs]
    exact Text.append_weave [c] _ _
  | hole x _ ih =>
    obtain ⟨hs, hlength⟩ := ih
    refine ⟨?_, by simp only [cut, List.length_cons, hlength]⟩
    rw [hs]
    rfl

section Lists

variable {α : Type} {frame : α → Frame} {below : α → List (List Char)} {text : α → List Char}

theorem separated {as : List α} (h : ∀ a ∈ as, Fills (frame a) (below a) (text a)) :
    Fills (Frame.separated (as.map frame)) (as.flatMap below) (Node.separated (as.map text)) := by
  induction as with
  | nil => exact .nil
  | cons a as ih =>
    rw [List.forall_mem_cons] at h
    obtain ⟨ha, has⟩ := h
    cases as with
    | nil =>
      rw [List.flatMap_cons, List.flatMap_nil, List.append_nil]
      exact ha
    | cons b as => exact ha.append (.char ',' (.char ' ' (ih has)))

theorem bracketed {as : List α} (h : ∀ a ∈ as, Fills (frame a) (below a) (text a)) :
    Fills (Frame.bracketed (as.map frame)) (as.flatMap below) (Node.bracketed (as.map text)) := by
  have hclosed := (separated h).append (Fills.ofText [']'])
  rw [List.append_nil] at hclosed
  exact .char '[' hclosed

end Lists
end Fills
end Frame

def TemplatePart.text? : TemplatePart → Option String
  | literal text => some text
  | expr _ => none

namespace Node

/-! ## Outlines -/

/-- A value without the nodes in it. -/
inductive Value.Outline
  | node
  | nodes (count : Nat)
  | optionalNode (present : Bool)
  | text (s : String)
  | optionalText (s? : Option String)
  /-- The parts of a template; no text where an expression stands. -/
  | parts (texts : List (Option String))
  | flag (b : Bool)
  | string (raw : String)
  | number (raw : String)
  | thunk (expr : String)
  | error (e : ErrorValue)
  deriving DecidableEq, Repr

namespace Value

def outline : Value → Outline
  | node _ => .node
  | nodes ns => .nodes ns.length
  | optionalNode n? => .optionalNode n?.isSome
  | text s => .text s
  | optionalText s? => .optionalText s?
  | parts ps => .parts (ps.map TemplatePart.text?)
  | flag b => .flag b
  | string raw => .string raw
  | number raw => .number raw
  | thunk expr => .thunk expr
  | error e => .error e

def Outline.part : Option String → Frame
  | some s => .ofText (emitText s)
  | none => .hole

/-- What a value writes, with a hole for each of its nodes. -/
def Outline.frame : Outline → Frame
  | node => .hole
  | nodes count => .bracketed (List.replicate count .hole)
  | optionalNode present => if present then .hole else .ofText absent
  | text s => .ofText (emitText s)
  | optionalText s? => .ofText (emitOptionalText s?)
  | parts texts => .bracketed (texts.map part)
  | flag b => .ofText (if b then "true".toList else "false".toList)
  | string raw => .ofText raw.toList
  | number raw => .ofText raw.toList
  | thunk expr => .ofText ("() => ".toList ++ expr.toList)
  | error e => .ofText (emitError e)

end Value

/-- A node without its children. -/
structure Outline where
  kind : NodeKind
  values : List Value.Outline
  deriving DecidableEq, Repr

def outline (n : Node) : Outline := ⟨n.kind, n.values.map Value.outline⟩

namespace Outline

/-- What follows the head of a construction, with a hole for each child. -/
def arguments (o : Outline) : Frame :=
  Frame.separated (o.values.map Value.Outline.frame) ++ [some ')']

def opening (o : Outline) : List Char := (Frame.cut o.arguments).1

def gaps (o : Outline) : List (List Char) := (Frame.cut o.arguments).2

end Outline

def constructionHead (b : List Char) (k : NodeKind) : List Char :=
  "new ".toList ++ b ++ '.' :: k.name.toList ++ ['(']

theorem construct_eq (b : List Char) (k : NodeKind) (args : List (List Char)) :
    construct b k args = constructionHead b k ++ (separated args ++ [')']) := by
  unfold construct constructionHead
  simp only [List.append_assoc, List.cons_append, List.nil_append]

/-! ## What a node writes -/

section Written

variable {b : List Char}

theorem emitPart_fills (p : TemplatePart) :
    Frame.Fills (Value.Outline.part p.text?) (p.node?.toList.map (emitChars b))
      (emitPart b p) := by
  cases p with
  | literal text => exact .ofText (emitText text)
  | expr n => exact .single (emitChars b n)

theorem Value.fills (v : Value) :
    Frame.Fills v.outline.frame (v.children.map (emitChars b)) (v.emit b) := by
  cases v with
  | node n => exact .single (emitChars b n)
  | nodes ns =>
    have h : Frame.Fills (Frame.bracketed (ns.map fun _ => Frame.hole))
        (ns.flatMap fun n => [emitChars b n]) (bracketed (ns.map (emitChars b))) :=
      .bracketed fun n _ => .single (emitChars b n)
    rw [Value.emit_nodes, outline, Outline.frame, children, ← List.map_const']
    rwa [← List.map_eq_flatMap] at h
  | optionalNode n? =>
    cases n? with
    | none => exact .ofText absent
    | some n => exact .single (emitChars b n)
  | parts ps =>
    have h : Frame.Fills (Frame.bracketed (ps.map fun p => Outline.part p.text?))
        (ps.flatMap fun p => p.node?.toList.map (emitChars b)) (bracketed (ps.map (emitPart b))) :=
      .bracketed fun p _ => emitPart_fills p
    rw [Value.emit_parts, outline, Outline.frame, children, List.map_map,
      List.filterMap_eq_flatMap_toList, List.map_flatMap]
    exact h
  | text s => exact .ofText (emitText s)
  | optionalText s? => exact .ofText (emitOptionalText s?)
  | flag value => exact .ofText (if value then "true".toList else "false".toList)
  | string raw => exact .ofText raw.toList
  | number raw => exact .ofText raw.toList
  | thunk expr => exact .ofText ("() => ".toList ++ expr.toList)
  | error e => exact .ofText (emitError e)

theorem fills_arguments (n : Node) :
    Frame.Fills n.outline.arguments (n.children.map (emitChars b))
      (separated (n.values.map (Value.emit b)) ++ [')']) := by
  have hvalues : Frame.Fills (Frame.separated (n.values.map fun v => v.outline.frame))
      (n.values.flatMap fun v => v.children.map (emitChars b))
      (separated (n.values.map (Value.emit b))) :=
    .separated fun v _ => v.fills
  have hclosed := hvalues.append (.ofText [')'])
  rw [List.append_nil, ← List.map_flatMap, ← children_eq] at hclosed
  rw [Outline.arguments, outline, List.map_map]
  exact hclosed

/-- The code of a node is the head of its construction, then the code of its children with the
gaps of the outline around it. -/
theorem emitChars_eq_weave (b : List Char) (n : Node) :
    emitChars b n =
      constructionHead b n.kind ++
        Text.weave n.outline.opening ((n.children.map (emitChars b)).zip n.outline.gaps) := by
  obtain ⟨hargs, -⟩ := (fills_arguments (b := b) n).eq_weave
  rw [emitChars_eq, construct_eq, hargs]
  rfl

theorem length_gaps (n : Node) : n.outline.gaps.length = n.children.length := by
  obtain ⟨-, hlength⟩ := (fills_arguments (b := []) n).eq_weave
  rwa [List.length_map] at hlength

-- The body of a do-while comes before its condition, with a comma between them.
example : (doStmt (.blockStmt []) .nullLiteralExpr).outline.gaps =
    [", ".toList, ")".toList] := rfl

end Written

/-! ## The whole tree -/

def preorder (n : Node) : List Node := fold (fun n below => n :: below.flatten) n

theorem preorder_eq (n : Node) : n.preorder = n :: n.children.flatMap preorder := by
  rw [List.flatMap_def]
  exact fold_eq _ n

/-- A piece of code without the binding of the library: a character, or the place where the
construction of a node begins. -/
inductive Mark
  | construction (n : Node)
  | char (c : Char)

namespace Mark

def node? : Mark → Option Node
  | construction n => some n
  | char _ => none

def write (b : List Char) : Mark → List Char
  | construction n => constructionHead b n.kind
  | char c => [c]

def ofText (s : List Char) : List Mark := s.map char

def weave (gap : List Char) : List (List Mark × List Char) → List Mark
  | [] => ofText gap
  | (below, next) :: rest => ofText gap ++ (below ++ weave next rest)

theorem write_ofText (b s : List Char) : (ofText s).flatMap (write b) = s := by
  induction s with
  | nil => rfl
  | cons c s ih => exact congrArg (c :: ·) ih

theorem nodes_ofText (s : List Char) : (ofText s).filterMap node? = [] := by
  induction s with
  | nil => rfl
  | cons c s ih => exact ih

theorem write_weave (b gap : List Char) (rest : List (List Mark × List Char)) :
    (weave gap rest).flatMap (write b) =
      Text.weave gap (rest.map fun x => (x.1.flatMap (write b), x.2)) := by
  induction rest generalizing gap with
  | nil => exact write_ofText b gap
  | cons x rest ih =>
    rw [weave, List.flatMap_append, List.flatMap_append, write_ofText, ih]
    rfl

theorem nodes_weave (gap : List Char) (rest : List (List Mark × List Char)) :
    (weave gap rest).filterMap node? = rest.flatMap fun x => x.1.filterMap node? := by
  induction rest generalizing gap with
  | nil => exact nodes_ofText gap
  | cons x rest ih =>
    rw [weave, List.filterMap_append, List.filterMap_append, nodes_ofText, ih]
    rfl

end Mark

/-- The code of a tree with its constructions marked. -/
def skeleton (n : Node) : List Mark :=
  fold (fun n below => .construction n :: Mark.weave n.outline.opening (below.zip n.outline.gaps)) n

theorem skeleton_eq (n : Node) :
    n.skeleton = .construction n ::
      Mark.weave n.outline.opening ((n.children.map skeleton).zip n.outline.gaps) :=
  fold_eq _ n

theorem write_skeleton (b : List Char) (n : Node) :
    n.skeleton.flatMap (Mark.write b) = emitChars b n := by
  induction n using induct with
  | node n ih =>
    have hchildren : n.children.map (fun c => c.skeleton.flatMap (Mark.write b)) =
        n.children.map (emitChars b) := List.map_congr_left ih
    rw [skeleton_eq, List.flatMap_cons, Mark.write_weave, emitChars_eq_weave, ← hchildren,
      List.zip_map_left, List.zip_map_left, List.map_map]
    rfl

theorem nodes_skeleton (n : Node) : n.skeleton.filterMap Mark.node? = n.preorder := by
  induction n using induct with
  | node n ih =>
    have hchildren : n.children.map (fun c => c.skeleton.filterMap Mark.node?) =
        n.children.map preorder := List.map_congr_left ih
    have hlength : (n.children.map skeleton).length ≤ n.outline.gaps.length := by
      rw [List.length_map, length_gaps]
    have hmarked : ((n.children.map skeleton).zip n.outline.gaps).flatMap
        (fun x => x.1.filterMap Mark.node?) = n.children.flatMap preorder := by
      calc ((n.children.map skeleton).zip n.outline.gaps).flatMap
            (fun x => x.1.filterMap Mark.node?)
          = (((n.children.map skeleton).zip n.outline.gaps).map Prod.fst).flatMap
              (fun marks => marks.filterMap Mark.node?) := by rw [List.flatMap_map]
        _ = (n.children.map skeleton).flatMap (fun marks => marks.filterMap Mark.node?) := by
            rw [List.map_fst_zip hlength]
        _ = (n.children.map preorder).flatten := by
            rw [← hchildren, List.flatMap_map, List.flatMap_def]
        _ = n.children.flatMap preorder := by rw [List.flatMap_def]
    rw [skeleton_eq, preorder_eq, ← hmarked, ← Mark.nodes_weave n.outline.opening]
    rfl

end Node

namespace NodeLibrary

/-- For any binding, the code of a node is the code of its children in their order with gaps
around it, where the gap in front is the head of the construction and an opening, and the
opening and the other gaps are given by the outline of the node, whatever its children are.  So
the code of a tree is one text, in which the nodes of the tree are marked in pre-order, once
each, and under every binding the head of the construction is written for each mark. -/
theorem emit_follows_children (n : Node) :
    (∀ l : NodeLibrary, (l.emit n).toList =
        Text.weave (Node.constructionHead l.binding.toList n.kind ++ n.outline.opening)
          ((n.children.map fun c => (l.emit c).toList).zip n.outline.gaps)) ∧
      n.outline.gaps.length = n.children.length ∧
      ∃ marks : List Node.Mark, marks.filterMap Node.Mark.node? = n.preorder ∧
        ∀ l : NodeLibrary,
          (l.emit n).toList = marks.flatMap (Node.Mark.write l.binding.toList) := by
  simp only [emit, String.toList_ofList]
  refine ⟨fun l => ?_, n.length_gaps, n.skeleton, n.nodes_skeleton, fun l => ?_⟩
  · rw [Node.emitChars_eq_weave, Text.append_weave]
  · rw [Node.write_skeleton]

end NodeLibrary
end Reify
