/-
Construction code determines the node.

Construction code is read from the left.  The values of every type of field but two end where
they can be told to end, whatever follows (`Value.emit_inj`).  The raw text of a number and a
thunk do not, but they stand last among the arguments, so a closing parenthesis follows them
(`Value.emit_inj_last`).  By induction on the nodes, two of them that begin alike are alike
(`emitChars_inj`), provided that the texts they take from the source as they are can be told
from what is written around them (`Legible`).
-/
import Reify.Proofs.Node.Value
import Reify.Proofs.Text.Delimited
import Reify.Proofs.Text.Quoted

namespace Reify

/-- Whether the code of a value of this type may seem to go on with what follows it. -/
def FieldType.isOpen : FieldType → Bool
  | .number | .thunk => true
  | _ => false

namespace NodeKind

/-- Only the last field of a kind may be of an open type. -/
theorem isOpen_of_mem_dropLast (k : NodeKind) :
    ∀ ty ∈ k.types.dropLast, ty.isOpen = false := by
  cases k <;> decide

theorem name_inj {j k : NodeKind} (h : j.name = k.name) : j = k := by
  rw [← Option.some_inj, ← ofName?_name, ← ofName?_name k, h]

theorem notMem_name (k : NodeKind) : '(' ∉ k.name.toList := by
  cases k <;> decide

end NodeKind

namespace Node

/-! ## Legible nodes -/

/-- The text that a node takes from the source as it is: a number closes no parenthesis, a
string is a complete literal, and the expression of a reference closes all its brackets. -/
def TextLegible : Node → Prop
  | numberLiteralExpr raw => ')' ∉ raw.toList
  | stringLiteralExpr raw => Text.Literal raw.toList
  | referenceExpr _ reference => Text.Balanced reference.toList
  | _ => True

/-- A node with legible text everywhere in it. -/
inductive Legible : Node → Prop
  | mk {n : Node} (text : n.TextLegible) (children : ∀ c ∈ n.children, Legible c) : Legible n

theorem Legible.text {n : Node} (h : n.Legible) : n.TextLegible := by
  cases h with
  | mk text _ => exact text

theorem Legible.child {n c : Node} (h : n.Legible) (hc : c ∈ n.children) : c.Legible := by
  cases h with
  | mk _ children => exact children c hc

structure Value.Legible (v : Value) : Prop where
  number : ∀ raw, v = .number raw → ')' ∉ raw.toList
  string : ∀ raw, v = .string raw → Text.Literal raw.toList
  thunk : ∀ expr, v = .thunk expr → Text.Balanced expr.toList
  children : ∀ c ∈ v.children, c.Legible

theorem Legible.value {n : Node} (h : n.Legible) {v : Value} (hv : v ∈ n.values) : v.Legible := by
  have htext := h.text
  refine ⟨?_, ?_, ?_, fun c hc => h.child (mem_children hv hc)⟩
  all_goals
    rintro raw rfl
    cases n <;> simp [values] at hv
    subst hv
    exact htext

/-! ## Lists of arguments -/

def following : List (List Char) → List Char → List Char
  | [], s => s
  | x :: xs, s => ',' :: ' ' :: (x ++ following xs s)

theorem separated_cons_append (x : List Char) (xs : List (List Char)) (s : List Char) :
    separated (x :: xs) ++ s = x ++ following xs s := by
  induction xs generalizing x with
  | nil => rfl
  | cons y xs ih =>
    rw [separated, List.append_assoc, List.cons_append, List.cons_append, ih]
    rfl

section Bracketed

variable {α : Type} {f : α → List Char} {xs ys : List α} {s t : List Char}

/-- Arguments that each end where they can be told to end, up to a closing bracket. -/
theorem following_inj (inj : ∀ x ∈ xs, ∀ y ∈ ys, ∀ s t, f x ++ s = f y ++ t → x = y ∧ s = t)
    (h : following (xs.map f) (']' :: s) = following (ys.map f) (']' :: t)) :
    xs = ys ∧ s = t := by
  induction xs generalizing ys with
  | nil =>
    cases ys with
    | nil => exact ⟨rfl, (List.cons.inj h).2⟩
    | cons y ys => exact absurd (List.cons.inj h).1 (by decide)
  | cons x xs ih =>
    cases ys with
    | nil => exact absurd (List.cons.inj h).1 (by decide)
    | cons y ys =>
      simp only [List.map_cons, following, List.cons.injEq, true_and] at h
      obtain ⟨rfl, htail⟩ := inj x List.mem_cons_self y List.mem_cons_self _ _ h
      obtain ⟨rfl, hst⟩ := ih
        (fun v hv w hw => inj v (List.mem_cons_of_mem x hv) w (List.mem_cons_of_mem x hw)) htail
      exact ⟨rfl, hst⟩

/-- Bracketed lists that begin alike are alike, if each of their items ends where it can be
told to end and begins like no closing bracket. -/
theorem bracketed_append_inj (start : ∀ x s t, f x ++ s ≠ ']' :: t)
    (inj : ∀ x ∈ xs, ∀ y ∈ ys, ∀ s t, f x ++ s = f y ++ t → x = y ∧ s = t)
    (h : bracketed (xs.map f) ++ s = bracketed (ys.map f) ++ t) : xs = ys ∧ s = t := by
  simp only [bracketed, List.cons_append, List.append_assoc, List.nil_append, List.cons.injEq,
    true_and] at h
  cases xs with
  | nil =>
    cases ys with
    | nil => exact ⟨rfl, (List.cons.inj h).2⟩
    | cons y ys =>
      rw [List.map_cons, separated_cons_append] at h
      exact absurd h.symm (start y _ _)
  | cons x xs =>
    rw [List.map_cons, separated_cons_append] at h
    cases ys with
    | nil => exact absurd h (start x _ _)
    | cons y ys =>
      rw [List.map_cons, separated_cons_append] at h
      obtain ⟨rfl, htail⟩ := inj x List.mem_cons_self y List.mem_cons_self _ _ h
      obtain ⟨rfl, hst⟩ := following_inj
        (fun v hv w hw => inj v (List.mem_cons_of_mem x hv) w (List.mem_cons_of_mem x hw)) htail
      exact ⟨rfl, hst⟩

end Bracketed

/-! ## What values begin with -/

theorem exists_construct_eq_cons (b : List Char) (k : NodeKind) (xs : List (List Char)) :
    ∃ r, construct b k xs = 'n' :: r := ⟨_, rfl⟩

theorem exists_emitChars_eq_cons (b : List Char) (n : Node) : ∃ r, emitChars b n = 'n' :: r := by
  rw [emitChars_eq]
  exact exists_construct_eq_cons ..

theorem emitChars_append_ne {c : Char} (hc : c ≠ 'n') (b : List Char) (n : Node)
    (s t : List Char) : emitChars b n ++ s ≠ c :: t := by
  obtain ⟨r, hr⟩ := exists_emitChars_eq_cons b n
  rw [hr]
  intro h
  exact hc (List.cons.inj h).1.symm

theorem emitText_append_ne {c : Char} (hc : c ≠ '"') (text : String) (s t : List Char) :
    emitText text ++ s ≠ c :: t := by
  intro h
  exact hc (List.cons.inj h).1.symm

theorem emitText_append_inj {x y : String} {s t : List Char}
    (h : emitText x ++ s = emitText y ++ t) : x = y ∧ s = t := by
  obtain ⟨hxy, hst⟩ := Text.quoteChars_append_inj h
  exact ⟨String.toList_inj.mp hxy, hst⟩

def emitPart (b : List Char) : TemplatePart → List Char
  | .literal text => emitText text
  | .expr n => emitChars b n

theorem emitParts_eq (b : List Char) (ps : List TemplatePart) :
    emitParts b ps = ps.map (emitPart b) := by
  induction ps with
  | nil => rfl
  | cons p ps ih => cases p <;> rw [emitParts, ih, List.map_cons] <;> rfl

theorem emitPart_append_ne (b : List Char) (p : TemplatePart) (s t : List Char) :
    emitPart b p ++ s ≠ ']' :: t := by
  cases p with
  | literal text => exact emitText_append_ne (by decide) text s t
  | expr n => exact emitChars_append_ne (by decide) b n s t

theorem emitOptionalText_append_inj {x? y? : Option String} {s t : List Char}
    (h : emitOptionalText x? ++ s = emitOptionalText y? ++ t) : x? = y? ∧ s = t := by
  cases x? with
  | none =>
    cases y? with
    | none => exact ⟨rfl, List.append_cancel_left h⟩
    | some y => exact absurd h.symm (emitText_append_ne (by decide) y t _)
  | some x =>
    cases y? with
    | none => exact absurd h (emitText_append_ne (by decide) x s _)
    | some y =>
      obtain ⟨rfl, hst⟩ := emitText_append_inj h
      exact ⟨rfl, hst⟩

theorem emitError_append_inj {d e : ErrorValue} {s t : List Char}
    (h : emitError d ++ s = emitError e ++ t) : d = e ∧ s = t := by
  obtain ⟨name, message⟩ := d
  obtain ⟨name', message'⟩ := e
  unfold emitError at h
  simp only [List.append_assoc] at h
  have hmessage := List.append_cancel_left h
  obtain ⟨rfl, htail⟩ := emitText_append_inj hmessage
  have hname := List.append_cancel_left htail
  obtain ⟨rfl, hrest⟩ := emitText_append_inj hname
  exact ⟨rfl, List.append_cancel_left hrest⟩

/-! ## Values -/

section Values

variable {b : List Char}

/-- A node that begins like `n` is `n`. -/
def Determined (b : List Char) (n : Node) : Prop :=
  ∀ m s t, m.Legible → emitChars b n ++ s = emitChars b m ++ t → n = m ∧ s = t

theorem emitOption_append_inj {n? m? : Option Node} {s t : List Char}
    (hn : ∀ n ∈ n?.toList, Determined b n) (hm : ∀ m ∈ m?.toList, m.Legible)
    (h : emitOption b n? ++ s = emitOption b m? ++ t) : n? = m? ∧ s = t := by
  cases n? with
  | none =>
    cases m? with
    | none => exact ⟨rfl, List.append_cancel_left h⟩
    | some m => exact absurd h.symm (emitChars_append_ne (by decide) b m t _)
  | some n =>
    cases m? with
    | none => exact absurd h (emitChars_append_ne (by decide) b n s _)
    | some m =>
      obtain ⟨rfl, hst⟩ := hn n List.mem_cons_self m s t (hm m List.mem_cons_self) h
      exact ⟨rfl, hst⟩

theorem emitPart_append_inj {p q : TemplatePart} {s t : List Char}
    (hp : ∀ n, p.node? = some n → Determined b n) (hq : ∀ m, q.node? = some m → m.Legible)
    (h : emitPart b p ++ s = emitPart b q ++ t) : p = q ∧ s = t := by
  cases p with
  | literal x =>
    cases q with
    | literal y =>
      obtain ⟨rfl, hst⟩ := emitText_append_inj h
      exact ⟨rfl, hst⟩
    | expr m => exact absurd h.symm (emitChars_append_ne (by decide) b m t _)
  | expr n =>
    cases q with
    | literal y => exact absurd h (emitChars_append_ne (by decide) b n s _)
    | expr m =>
      obtain ⟨rfl, hst⟩ := hp n rfl m s t (hq m rfl) h
      exact ⟨rfl, hst⟩

theorem Value.emit_nodes (ns : List Node) :
    (Value.nodes ns).emit b = bracketed (ns.map (emitChars b)) :=
  congrArg bracketed (emitEach_eq b ns)

theorem Value.emit_parts (ps : List TemplatePart) :
    (Value.parts ps).emit b = bracketed (ps.map (emitPart b)) :=
  congrArg bracketed (emitParts_eq b ps)

theorem Value.emit_thunk_append (expr : String) (s : List Char) :
    (Value.thunk expr).emit b ++ s = "() => ".toList ++ (expr.toList ++ s) :=
  List.append_assoc ..

/-- A value of a type that is not open ends where it can be told to end. -/
theorem Value.emit_inj {v w : Value} {s t : List Char} (hclosed : v.type.isOpen = false)
    (htype : v.type = w.type) (hdetermined : ∀ n ∈ v.children, Determined b n) (hv : v.Legible)
    (hw : w.Legible) (h : v.emit b ++ s = w.emit b ++ t) : v = w ∧ s = t := by
  cases v <;> cases w <;> cases htype
  case node.node n m =>
    obtain ⟨rfl, hst⟩ :=
      hdetermined n List.mem_cons_self m s t (hw.children m List.mem_cons_self) h
    exact ⟨rfl, hst⟩
  case nodes.nodes ns ms =>
    rw [Value.emit_nodes, Value.emit_nodes] at h
    obtain ⟨rfl, hst⟩ := bracketed_append_inj (emitChars_append_ne (by decide) b)
      (fun n hn m hm s t => hdetermined n hn m s t (hw.children m hm)) h
    exact ⟨rfl, hst⟩
  case optionalNode.optionalNode n? m? =>
    obtain ⟨rfl, hst⟩ := emitOption_append_inj hdetermined hw.children h
    exact ⟨rfl, hst⟩
  case text.text x y =>
    obtain ⟨rfl, hst⟩ := emitText_append_inj h
    exact ⟨rfl, hst⟩
  case optionalText.optionalText x? y? =>
    obtain ⟨rfl, hst⟩ := emitOptionalText_append_inj h
    exact ⟨rfl, hst⟩
  case parts.parts ps qs =>
    rw [Value.emit_parts, Value.emit_parts] at h
    have hps : ∀ p ∈ ps, ∀ n, p.node? = some n → Determined b n := fun p hp n hn =>
      hdetermined n (List.mem_filterMap.mpr ⟨p, hp, hn⟩)
    have hqs : ∀ q ∈ qs, ∀ m, q.node? = some m → m.Legible := fun q hq m hm =>
      hw.children m (List.mem_filterMap.mpr ⟨q, hq, hm⟩)
    obtain ⟨rfl, hst⟩ := bracketed_append_inj (emitPart_append_ne b)
      (fun p hp q hq s t => emitPart_append_inj (hps p hp) (hqs q hq)) h
    exact ⟨rfl, hst⟩
  case flag.flag x y =>
    cases x <;> cases y
    case false.false => exact ⟨rfl, List.append_cancel_left h⟩
    case true.true => exact ⟨rfl, List.append_cancel_left h⟩
    all_goals exact absurd (List.cons.inj h).1 (by decide)
  case string.string x y =>
    obtain ⟨hxy, hst⟩ := (hv.string x rfl).append_inj (hw.string y rfl) h
    obtain rfl := String.toList_inj.mp hxy
    exact ⟨rfl, hst⟩
  case number.number => cases hclosed
  case thunk.thunk => cases hclosed
  case error.error d e =>
    obtain ⟨rfl, hst⟩ := emitError_append_inj h
    exact ⟨rfl, hst⟩

theorem Value.emit_inj_last {v w : Value} {s t : List Char} (htype : v.type = w.type)
    (hdetermined : ∀ n ∈ v.children, Determined b n) (hv : v.Legible) (hw : w.Legible)
    (h : v.emit b ++ ')' :: s = w.emit b ++ ')' :: t) : v = w ∧ s = t := by
  cases hopen : v.type.isOpen with
  | false =>
    obtain ⟨hvw, htail⟩ := emit_inj hopen htype hdetermined hv hw h
    exact ⟨hvw, (List.cons.inj htail).2⟩
  | true =>
    cases v with
    | number x =>
      cases w with
      | number y =>
        have hx := hv.number x rfl
        have hy := hw.number y rfl
        obtain ⟨hxy, hst⟩ := Text.append_cons_inj hx hy h
        obtain rfl := String.toList_inj.mp hxy
        exact ⟨rfl, hst⟩
      | _ => cases htype
    | thunk x =>
      cases w with
      | thunk y =>
        have hx := hv.thunk x rfl
        have hy := hw.thunk y rfl
        rw [Value.emit_thunk_append, Value.emit_thunk_append] at h
        obtain ⟨hxy, -, hst⟩ := hx.append_inj hy rfl rfl (List.append_cancel_left h)
        obtain rfl := String.toList_inj.mp hxy
        exact ⟨rfl, hst⟩
      | _ => cases htype
    | _ => cases hopen

theorem Value.arguments_inj {vs ws : List Value} {s t : List Char}
    (htypes : vs.map Value.type = ws.map Value.type)
    (hclosed : ∀ ty ∈ (vs.map Value.type).dropLast, ty.isOpen = false)
    (hdetermined : ∀ v ∈ vs, ∀ n ∈ v.children, Determined b n) (hvs : ∀ v ∈ vs, v.Legible)
    (hws : ∀ w ∈ ws, w.Legible)
    (h : separated (vs.map (Value.emit b)) ++ ')' :: s =
      separated (ws.map (Value.emit b)) ++ ')' :: t) : vs = ws ∧ s = t := by
  induction vs generalizing ws with
  | nil =>
    obtain rfl := List.map_eq_nil_iff.mp htypes.symm
    exact ⟨rfl, (List.cons.inj h).2⟩
  | cons v vs ih =>
    obtain ⟨w, ws, rfl, hvw, hrest⟩ := List.map_eq_cons_iff.mp htypes.symm
    rw [List.forall_mem_cons] at hdetermined hvs hws
    rw [List.map_cons, List.map_cons, separated_cons_append, separated_cons_append] at h
    cases vs with
    | nil =>
      obtain rfl := List.map_eq_nil_iff.mp hrest
      obtain ⟨rfl, hst⟩ := emit_inj_last hvw.symm hdetermined.1 hvs.1 hws.1 h
      exact ⟨rfl, hst⟩
    | cons v' vs =>
      obtain ⟨w', ws, rfl, -, -⟩ := List.map_eq_cons_iff.mp hrest
      simp only [List.map_cons, List.dropLast_cons_cons, List.forall_mem_cons] at hclosed
      obtain ⟨rfl, htail⟩ := emit_inj hclosed.1 hvw.symm hdetermined.1 hvs.1 hws.1 h
      simp only [List.map_cons, following, List.cons.injEq, true_and] at htail
      rw [← separated_cons_append, ← separated_cons_append] at htail
      obtain ⟨hvs', hst⟩ := ih hrest.symm hclosed.2 hdetermined.2 hvs.2 hws.2 htail
      exact ⟨by rw [hvs'], hst⟩

end Values

/-! ## Nodes -/

theorem construct_append_inj {b : List Char} {j k : NodeKind} {xs ys : List (List Char)}
    {s t : List Char} (h : construct b j xs ++ s = construct b k ys ++ t) :
    j = k ∧ separated xs ++ ')' :: s = separated ys ++ ')' :: t := by
  unfold construct at h
  generalize "new ".toList = new at h
  simp only [List.append_assoc, List.cons_append, List.nil_append] at h
  have hname := (List.cons.inj (List.append_cancel_left (List.append_cancel_left h))).2
  obtain ⟨hjk, harguments⟩ := Text.append_cons_inj j.notMem_name k.notMem_name hname
  exact ⟨NodeKind.name_inj (String.toList_inj.mp hjk), harguments⟩

theorem emitChars_inj (b : List Char) (n : Node) (hn : n.Legible) : Determined b n := by
  induction n using induct with
  | node n ih =>
    intro m s t hm h
    rw [emitChars_eq, emitChars_eq] at h
    obtain ⟨hkind, harguments⟩ := construct_append_inj h
    have htypes : n.values.map Value.type = m.values.map Value.type := by
      rw [map_type_values, map_type_values, hkind]
    have hclosed : ∀ ty ∈ (n.values.map Value.type).dropLast, ty.isOpen = false := by
      rw [map_type_values]
      exact n.kind.isOpen_of_mem_dropLast
    have hdetermined : ∀ v ∈ n.values, ∀ c ∈ v.children, Determined b c := fun v hv c hc =>
      ih c (mem_children hv hc) (hn.child (mem_children hv hc))
    obtain ⟨hvalues, hst⟩ := Value.arguments_inj htypes hclosed hdetermined
      (fun v hv => hn.value hv) (fun w hw => hm.value hw) harguments
    exact ⟨eq_of_values hkind hvalues, hst⟩

end Node

namespace NodeLibrary

/-- Two nodes with legible text have the same construction code only if they are the same. -/
theorem emit_eq_iff (l : NodeLibrary) {a b : Node} (ha : a.Legible) (hb : b.Legible) :
    l.emit a = l.emit b ↔ a = b := by
  constructor
  · intro h
    have hchars : a.emitChars l.binding.toList = b.emitChars l.binding.toList :=
      String.ofList_injective h
    have hnil : a.emitChars l.binding.toList ++ [] = b.emitChars l.binding.toList ++ [] := by
      rw [hchars]
    exact (Node.emitChars_inj l.binding.toList a ha b [] [] hb hnil).1
  · rintro rfl
    rfl

/-- Text that looks like construction code is not taken for it. -/
theorem emit_lookalike_ne :
    ({} : NodeLibrary).emit (.arrayLiteralExpr
        [.numberLiteralExpr "0", .stringLiteralExpr "'), undefined'",
          .referenceExpr "t" "t[f(')')]"]) ≠
      ({} : NodeLibrary).emit (.arrayLiteralExpr
        [.numberLiteralExpr "0", .stringLiteralExpr "''", .undefinedLiteralExpr,
          .referenceExpr "t" "t"]) := by
  have leaf {n : Node} (htext : n.TextLegible) (hnil : n.children = []) : n.Legible :=
    .mk htext (by rw [hnil]; exact List.forall_mem_nil _)
  have array {ns : List Node} (h : ∀ n ∈ ns, n.Legible) : (Node.arrayLiteralExpr ns).Legible :=
    .mk trivial h
  have hnumber : (Node.numberLiteralExpr "0").Legible := by
    refine leaf ?_ rfl
    show ')' ∉ ['0']
    decide
  have hstring : (Node.stringLiteralExpr "'), undefined'").Legible := by
    refine leaf ?_ rfl
    have hescaped : Text.Escaped '\'' "), undefined".toList := Text.escaped_of_all (by decide)
    exact .mk rfl hescaped
  have hempty : (Node.stringLiteralExpr "''").Legible := leaf (.mk rfl .nil) rfl
  have habsent : Node.undefinedLiteralExpr.Legible := leaf trivial rfl
  have haccess : (Node.referenceExpr "t" "t[f(')')]").Legible := by
    refine leaf ?_ rfl
    have hescaped : Text.Escaped '\'' [')'] := Text.escaped_of_all (by decide)
    have hquoted : Text.Balanced ['\'', ')', '\''] := .quoted rfl hescaped .nil
    have hcall : Text.Balanced ['f', '(', '\'', ')', '\'', ')'] :=
      .plain rfl rfl rfl (.bracketed rfl hquoted rfl .nil)
    exact .plain rfl rfl rfl (.bracketed rfl hcall rfl .nil)
  have hname : (Node.referenceExpr "t" "t").Legible := leaf (.plain rfl rfl rfl .nil) rfl
  refine mt (emit_eq_iff {} (array ?_) (array ?_)).mp ?_
  · simp only [List.forall_mem_cons]
    exact ⟨hnumber, hstring, haccess, List.forall_mem_nil _⟩
  · simp only [List.forall_mem_cons]
    exact ⟨hnumber, hempty, habsent, hname, List.forall_mem_nil _⟩
  · simp

end NodeLibrary
end Reify
