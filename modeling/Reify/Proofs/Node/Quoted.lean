/-
No text leaves its argument.

Names, operators, paths, types, messages and the literal parts of templates are written between
quotes.  Nodes that differ at most in them (`Reworded`) have construction code that differs at
most between the quotes of literals, and so have two import lines that differ in the module.
What else the code has in common holds no quote, or is text that the node takes from the source
(`sourceTexts`): if that leaves no literal open, the code outside of literals is the same.
-/
import Reify.Proofs.Node.Unambiguous
import Reify.Proofs.Text.Closing

namespace Reify

open Text (SameOutside isDelimiter)

namespace Node

/-- Parts of templates that differ at most in their text, or in nodes that are related. -/
inductive PartReworded (R : Node → Node → Prop) : TemplatePart → TemplatePart → Prop
  | literal (text text' : String) : PartReworded R (.literal text) (.literal text')
  | expr {n m : Node} (related : R n m) : PartReworded R (.expr n) (.expr m)

inductive Value.Reworded (R : Node → Node → Prop) : Value → Value → Prop
  | node {n m : Node} (related : R n m) : Reworded R (.node n) (.node m)
  | nodes {ns ms : List Node} (related : List.Forall₂ R ns ms) : Reworded R (.nodes ns) (.nodes ms)
  | absentNode : Reworded R (.optionalNode none) (.optionalNode none)
  | presentNode {n m : Node} (related : R n m) :
    Reworded R (.optionalNode (some n)) (.optionalNode (some m))
  | text (s t : String) : Reworded R (.text s) (.text t)
  | absentText : Reworded R (.optionalText none) (.optionalText none)
  | presentText (s t : String) : Reworded R (.optionalText (some s)) (.optionalText (some t))
  | parts {ps qs : List TemplatePart} (related : List.Forall₂ (PartReworded R) ps qs) :
    Reworded R (.parts ps) (.parts qs)
  | flag (b : Bool) : Reworded R (.flag b) (.flag b)
  | string (raw : String) : Reworded R (.string raw) (.string raw)
  | number (raw : String) : Reworded R (.number raw) (.number raw)
  | thunk (expr : String) : Reworded R (.thunk expr) (.thunk expr)
  | error (d e : ErrorValue) : Reworded R (.error d) (.error e)

/-- Nodes that differ at most in texts that are quoted. -/
inductive Reworded : Node → Node → Prop
  | mk {n m : Node} (kind : n.kind = m.kind)
      (values : List.Forall₂ (Value.Reworded Reworded) n.values m.values) : Reworded n m

def Value.source? : Value → Option String
  | string raw | number raw | thunk raw => some raw
  | _ => none

/-- The texts in a node that are taken from the source as they are. -/
def sourceTexts : Node → List String :=
  fold fun n below => n.values.filterMap Value.source? ++ below.flatten

theorem mem_sourceTexts {n : Node} {raw : String} :
    raw ∈ n.sourceTexts ↔
      (∃ v ∈ n.values, v.source? = some raw) ∨ ∃ c ∈ n.children, raw ∈ c.sourceTexts := by
  have heq : n.sourceTexts =
      n.values.filterMap Value.source? ++ (n.children.map sourceTexts).flatten := fold_eq _ n
  rw [heq, List.mem_append, List.mem_filterMap, ← List.flatMap_def, List.mem_flatMap]

section Emitted

variable {kept : List Char → Prop} {b : List Char}

/-! ## Lists of arguments -/

theorem sameOutside_separated {xs ys : List (List Char)}
    (h : List.Forall₂ (SameOutside kept) xs ys) :
    SameOutside kept (separated xs) (separated ys) := by
  induction h with
  | nil => exact .nil
  | cons head tail ih =>
    cases tail with
    | nil => exact head
    | cons next rest => exact head.append (.code rfl (.code rfl ih))

theorem sameOutside_bracketed {α : Type} {f : α → List Char} {xs ys : List α}
    (h : List.Forall₂ (fun x y => SameOutside kept (f x) (f y)) xs ys) :
    SameOutside kept (bracketed (xs.map f)) (bracketed (ys.map f)) := by
  rw [← List.forall₂_map_right_iff, ← List.forall₂_map_left_iff] at h
  exact .code rfl ((sameOutside_separated h).append (.code rfl .nil))

theorem plain_name (k : NodeKind) : k.name.toList.any isDelimiter = false := by
  cases k <;> rfl

theorem sameOutside_construct (hb : kept b) (k : NodeKind) {xs ys : List (List Char)}
    (h : List.Forall₂ (SameOutside kept) xs ys) :
    SameOutside kept (construct b k xs) (construct b k ys) := by
  have hnew : SameOutside kept "new ".toList "new ".toList := .of_plain rfl
  have hclass : SameOutside kept ('.' :: k.name.toList) ('.' :: k.name.toList) :=
    .code rfl (.of_plain (plain_name k))
  have hopen : SameOutside kept ('(' :: separated xs) ('(' :: separated ys) :=
    .code rfl (sameOutside_separated h)
  have hclose : SameOutside kept [')'] [')'] := .of_plain rfl
  exact (((hnew.append (.of_kept hb)).append hclass).append hopen).append hclose

/-! ## Values -/

theorem sameOutside_absent : SameOutside kept absent absent := .of_plain rfl

theorem sameOutside_text (s t : String) : SameOutside kept (emitText s) (emitText t) :=
  .quoteChars s.toList t.toList

theorem sameOutside_error (d e : ErrorValue) : SameOutside kept (emitError d) (emitError e) := by
  have hclass : SameOutside kept "Object.assign(new Error(".toList
      "Object.assign(new Error(".toList := .of_plain rfl
  have hname : SameOutside kept "), \x7b name: ".toList "), \x7b name: ".toList :=
    .of_plain rfl
  have hclose : SameOutside kept " \x7d)".toList " \x7d)".toList := .of_plain rfl
  have hmessage := hclass.append (sameOutside_text d.message e.message)
  exact ((hmessage.append hname).append (sameOutside_text d.name e.name)).append hclose

theorem PartReworded.sameOutside {R : Node → Node → Prop} {p q : TemplatePart}
    (h : PartReworded R p q)
    (hnodes : ∀ n, p.node? = some n → ∀ m, R n m →
      SameOutside kept (emitChars b n) (emitChars b m)) :
    SameOutside kept (emitPart b p) (emitPart b q) := by
  cases h with
  | literal text text' => exact sameOutside_text text text'
  | expr related => exact hnodes _ rfl _ related

theorem Value.Reworded.sameOutside {R : Node → Node → Prop} {v w : Value} (h : v.Reworded R w)
    (hsource : ∀ raw, v.source? = some raw → kept raw.toList)
    (hnodes : ∀ n ∈ v.children, ∀ m, R n m → SameOutside kept (emitChars b n) (emitChars b m)) :
    SameOutside kept (v.emit b) (w.emit b) := by
  cases h with
  | node related => exact hnodes _ List.mem_cons_self _ related
  | @nodes ns ms related =>
    rw [Value.emit_nodes, Value.emit_nodes]
    have hrelated := (List.forall₂_and_left _ _).mpr ⟨hnodes, related⟩
    exact sameOutside_bracketed (hrelated.imp fun n m h => h.1 m h.2)
  | absentNode => exact sameOutside_absent
  | presentNode related => exact hnodes _ List.mem_cons_self _ related
  | text s t => exact sameOutside_text s t
  | absentText => exact sameOutside_absent
  | presentText s t => exact sameOutside_text s t
  | @parts ps qs related =>
    rw [Value.emit_parts, Value.emit_parts]
    have hmember : ∀ p ∈ ps, ∀ n, p.node? = some n → ∀ m, R n m →
        SameOutside kept (emitChars b n) (emitChars b m) := fun p hp n hn =>
      hnodes n (List.mem_filterMap.mpr ⟨p, hp, hn⟩)
    have hrelated := (List.forall₂_and_left _ _).mpr ⟨hmember, related⟩
    exact sameOutside_bracketed (hrelated.imp fun p q h => h.2.sameOutside h.1)
  | flag value =>
    cases value with
    | false =>
      have hfalse : SameOutside kept "false".toList "false".toList := .of_plain rfl
      exact hfalse
    | true =>
      have htrue : SameOutside kept "true".toList "true".toList := .of_plain rfl
      exact htrue
  | string raw => exact .of_kept (hsource raw rfl)
  | number raw => exact .of_kept (hsource raw rfl)
  | thunk expr =>
    have harrow : SameOutside kept "() => ".toList "() => ".toList := .of_plain rfl
    exact harrow.append (.of_kept (hsource expr rfl))
  | error d e => exact sameOutside_error d e

/-- Construction code outside of literals is the same whatever the quoted texts are. -/
theorem Reworded.sameOutside (hb : kept b) {n m : Node} (h : n.Reworded m)
    (hsources : ∀ raw ∈ n.sourceTexts, kept raw.toList) :
    SameOutside kept (emitChars b n) (emitChars b m) := by
  induction n using induct generalizing m with
  | node n ih =>
    cases h with
    | mk kind values =>
      rw [emitChars_eq, emitChars_eq, kind]
      -- That each value is one of `n` is kept with the pairs: the induction is on its children.
      have hvalues := (List.forall₂_and_left _ _).mpr ⟨fun v (hv : v ∈ n.values) => hv, values⟩
      refine sameOutside_construct hb m.kind ?_
      rw [List.forall₂_map_left_iff, List.forall₂_map_right_iff]
      refine hvalues.imp fun v w hvw => ?_
      have hsource : ∀ raw, v.source? = some raw → kept raw.toList := fun raw hraw =>
        hsources raw (mem_sourceTexts.mpr (.inl ⟨v, hvw.1, hraw⟩))
      refine hvw.2.sameOutside hsource fun c hc d hcd => ?_
      have hmember := mem_children hvw.1 hc
      exact ih c hmember hcd fun raw hraw =>
        hsources raw (mem_sourceTexts.mpr (.inr ⟨c, hmember, hraw⟩))

end Emitted

end Node

namespace NodeLibrary

/-- The texts that construction code of the node has as they are: the binding of the library,
and what the node takes from the source. -/
def keptTexts (l : NodeLibrary) (n : Node) : List (List Char) :=
  (l.binding :: n.sourceTexts).map String.toList

theorem sameOutside_emit (l : NodeLibrary) {n m : Node} (h : n.Reworded m) :
    SameOutside (· ∈ l.keptTexts n) (l.emit n).toList (l.emit m).toList := by
  rw [emit, emit, String.toList_ofList, String.toList_ofList]
  exact h.sameOutside (List.mem_map_of_mem List.mem_cons_self) fun raw hraw =>
    List.mem_map_of_mem (List.mem_cons_of_mem l.binding hraw)

theorem sameOutside_importLine (binding specifier specifier' : String) :
    SameOutside (· = binding.toList) (importLine ⟨binding, specifier⟩).toList
      (importLine ⟨binding, specifier'⟩).toList := by
  have himport : SameOutside (· = binding.toList) "import * as ".toList "import * as ".toList :=
    .of_plain rfl
  have hfrom : SameOutside (· = binding.toList) " from ".toList " from ".toList :=
    .of_plain rfl
  have hend : SameOutside (· = binding.toList) ";".toList ";".toList := .of_plain rfl
  have hquoted : SameOutside (· = binding.toList) (Text.quote specifier).toList
      (Text.quote specifier').toList := by
    rw [Text.toList_quote, Text.toList_quote]
    exact .quoteChars _ _
  have hbinding := himport.append_toList (.of_kept (x := binding.toList) rfl)
  exact ((hbinding.append_toList hfrom).append_toList hquoted).append_toList hend

/-- A quoted text is one literal without control characters, whatever follows it, and its value
is the text.  So what is written for texts that are quoted changes the code at most inside of
literals, in construction code and in the import line. -/
theorem quoted_texts_stay_inside :
    (∀ s t : String, Text.afterLiteral? (Text.quote s ++ t).toList = some t.toList ∧
      (∀ c ∈ (Text.quote s).toList, 0x20 ≤ c.toNat) ∧ Text.stringValue (Text.quote s) = s) ∧
    (∀ (l : NodeLibrary) (n m : Node), n.Reworded m →
      SameOutside (· ∈ l.keptTexts n) (l.emit n).toList (l.emit m).toList ∧
      ((∀ x ∈ l.keptTexts n, Text.Closed x) →
        Text.outside none (l.emit n).toList = Text.outside none (l.emit m).toList)) ∧
    (∀ binding specifier specifier' : String,
      SameOutside (· = binding.toList) (importLine ⟨binding, specifier⟩).toList
        (importLine ⟨binding, specifier'⟩).toList ∧
      (Text.Closed binding.toList →
        Text.outside none (importLine ⟨binding, specifier⟩).toList =
          Text.outside none (importLine ⟨binding, specifier'⟩).toList)) := by
  refine ⟨fun s t => ⟨?_, ?_, Text.stringValue_quote s⟩, fun l n m h => ?_, fun b s s' => ?_⟩
  · rw [String.toList_append, Text.toList_quote, Text.isLiteral_quoteChars]
  · rw [Text.toList_quote]
    exact fun c => Text.le_toNat_of_mem_quoteChars
  · have hsame := l.sameOutside_emit h
    exact ⟨hsame, hsame.outside_eq⟩
  · have hsame := sameOutside_importLine b s s'
    refine ⟨hsame, fun hclosed => hsame.outside_eq ?_⟩
    rintro w rfl
    exact hclosed

/-- An operator that looks like the end of its argument and of what it is an argument of. -/
theorem lookalike_operator_stays_inside :
    Text.outside none (({} : NodeLibrary).emit
        (.binaryExpr (.referenceExpr "t" "t") "\"), new $ir.Identifier(\""
          (.stringLiteralExpr "'k'"))).toList =
      Text.outside none (({} : NodeLibrary).emit
        (.binaryExpr (.referenceExpr "" "t") "+" (.stringLiteralExpr "'k'"))).toList := by
  have hreference : Node.Reworded (.referenceExpr "t" "t") (.referenceExpr "" "t") :=
    .mk rfl (.cons (.text "t" "") (.cons (.thunk "t") .nil))
  have hstring : Node.Reworded (.stringLiteralExpr "'k'") (.stringLiteralExpr "'k'") :=
    .mk rfl (.cons (.string "'k'") .nil)
  have hreworded : Node.Reworded
      (.binaryExpr (.referenceExpr "t" "t") "\"), new $ir.Identifier(\"" (.stringLiteralExpr "'k'"))
      (.binaryExpr (.referenceExpr "" "t") "+" (.stringLiteralExpr "'k'")) :=
    .mk rfl (.cons (.node hreference) (.cons (.text _ _) (.cons (.node hstring) .nil)))
  have hbinding : Text.Balanced ['$', 'i', 'r'] :=
    .plain rfl rfl rfl (.plain rfl rfl rfl (.plain rfl rfl rfl .nil))
  have hthunk : Text.Balanced ['t'] := .plain rfl rfl rfl .nil
  have hescaped : Text.Escaped '\'' ['k'] := Text.escaped_of_all rfl
  have hliteral : Text.Literal ['\'', 'k', '\''] := .mk rfl hescaped
  refine (quoted_texts_stay_inside.2.1 {} _ _ hreworded).2 ?_
  intro x (hx : x ∈ [['$', 'i', 'r'], ['t'], ['\'', 'k', '\'']])
  simp only [List.mem_cons, List.not_mem_nil, or_false] at hx
  rcases hx with rfl | rfl | rfl
  · exact hbinding.closed
  · exact hthunk.closed
  · exact hliteral.closed

end NodeLibrary
end Reify
