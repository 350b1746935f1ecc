/-
Access paths tell access chains apart.

An access chain is a name with the properties and subscripts that are read of it one after the
other, where a subscript is a literal or a chain itself.  `Tree.Denotes t c` says that the
expression `t` is the chain `c`, wrappers, comments and marks of optional access aside.  The
access path of `t` is the chain written out (`accessPath?_eq_some_iff`).  Read from the left, a
name ends at the first point or square bracket, a number at the first closing bracket and a
string at its closing quote, so links are read one by one up to the bracket that closes them
(`Link.links_append_inj`), and chains that are written alike are alike
(`Chain.Spelled.path_inj`).
-/
import Reify.Proofs.Text.Delimited
import Reify.Proofs.Tree.Unwrapped

namespace Reify

/-! ## Chains -/

/-- What an access chain reads next. -/
inductive Link
  | property (name : String)
  /-- A subscript that is a literal, as written. -/
  | literal (text : String)
  /-- A subscript that is a chain: its name and its links. -/
  | chain (root : String) (links : List Link)

/-- A name, and what is read of it one after the other. -/
structure Chain where
  root : String
  links : List Link

mutual

def Link.chars : Link → List Char
  | .property name => '.' :: name.toList
  | .literal text => '[' :: (text.toList ++ [']'])
  | .chain root links => '[' :: (root.toList ++ (Link.charsOf links ++ [']']))

def Link.charsOf : List Link → List Char
  | [] => []
  | l :: ls => l.chars ++ Link.charsOf ls

end

theorem Link.charsOf_append (ls ms : List Link) :
    charsOf (ls ++ ms) = charsOf ls ++ charsOf ms := by
  induction ls with
  | nil => rfl
  | cons l ls ih => rw [List.cons_append, charsOf, charsOf, ih, List.append_assoc]

namespace Chain

def path (c : Chain) : String := String.ofList (c.root.toList ++ Link.charsOf c.links)

def snoc (c : Chain) (l : Link) : Chain := ⟨c.root, c.links ++ [l]⟩

theorem path_snoc (c : Chain) (l : Link) : (c.snoc l).path = c.path ++ String.ofList l.chars := by
  rw [path, snoc, Link.charsOf_append, ← List.append_assoc, String.ofList_append]
  simp [path, Link.charsOf]

theorem path_property (c : Chain) (name : String) :
    (c.snoc (.property name)).path = c.path ++ "." ++ name := by
  rw [path_snoc, String.append_assoc]
  exact congrArg (c.path ++ ·) (String.toList_inj.mp (by simp [Link.chars]))

theorem path_literal (c : Chain) (text : String) :
    (c.snoc (.literal text)).path = c.path ++ "[" ++ text ++ "]" := by
  rw [path_snoc, String.append_assoc, String.append_assoc]
  exact congrArg (c.path ++ ·) (String.toList_inj.mp (by simp [Link.chars]))

theorem path_chain (c d : Chain) :
    (c.snoc (.chain d.root d.links)).path = c.path ++ "[" ++ d.path ++ "]" := by
  rw [path_snoc, String.append_assoc, String.append_assoc]
  exact congrArg (c.path ++ ·) (String.toList_inj.mp (by simp [Link.chars, path]))

end Chain

/-! ## Names and literals -/

namespace Chain

/-- The characters that end a name in a path. -/
def isPathMark (c : Char) : Bool := c == '.' || c == '[' || c == ']'

structure IsName (text : String) : Prop where
  nonempty : text ≠ ""
  plain : text.toList.any isPathMark = false
  unquoted : text.toList.any Text.isDelimiter = false
  no_digit : text.toList.head?.any Char.isDigit = false

structure IsNumber (text : String) : Prop where
  head : text.toList.head?.any (fun c => c.isDigit || c == '.') = true
  open_end : ']' ∉ text.toList

def IsLiteral (text : String) : Prop := IsNumber text ∨ Text.Literal text.toList

def startsLiteral (c : Char) : Bool := c.isDigit || c == '.' || Text.isDelimiter c

theorem IsName.start {text : String} (h : IsName text) :
    ∃ c cs, text.toList = c :: cs ∧ startsLiteral c = false := by
  obtain ⟨nonempty, plain, unquoted, no_digit⟩ := h
  cases htext : text.toList with
  | nil => exact absurd (String.toList_eq_nil_iff.mp htext) nonempty
  | cons c cs =>
    rw [htext, List.any_cons, Bool.or_eq_false_iff] at plain unquoted
    obtain ⟨hmark, -⟩ := plain
    rw [isPathMark, Bool.or_eq_false_iff, Bool.or_eq_false_iff] at hmark
    have hdigit : c.isDigit = false := by
      rw [htext] at no_digit
      exact no_digit
    exact ⟨c, cs, rfl, by rw [startsLiteral, hdigit, hmark.1.1, unquoted.1]; rfl⟩

theorem IsNumber.start {text : String} (h : IsNumber text) :
    ∃ c cs, text.toList = c :: cs ∧ (c.isDigit || c == '.') = true := by
  have hhead := h.head
  cases htext : text.toList with
  | nil =>
    rw [htext] at hhead
    cases hhead
  | cons c cs =>
    rw [htext] at hhead
    exact ⟨c, cs, rfl, hhead⟩

theorem IsLiteral.start {text : String} (h : IsLiteral text) :
    ∃ c cs, text.toList = c :: cs ∧ startsLiteral c = true := by
  rcases h with h | h
  · obtain ⟨c, cs, hcs, hstart⟩ := h.start
    exact ⟨c, cs, hcs, by rw [startsLiteral, hstart, Bool.true_or]⟩
  · generalize text.toList = cs at h
    obtain ⟨delimiter, -⟩ := h
    exact ⟨_, _, rfl, by rw [startsLiteral, delimiter, Bool.or_true]⟩

theorem IsNumber.append_ne {text : String} {ds s t : List Char} (h : IsNumber text)
    (hds : Text.Literal ds) : text.toList ++ s ≠ ds ++ t := by
  obtain ⟨c, cs, hcs, hstart⟩ := h.start
  obtain ⟨delimiter, -⟩ := hds
  rw [hcs]
  intro heq
  obtain ⟨rfl, -⟩ := List.cons.inj heq
  simp only [Text.isDelimiter, Bool.or_eq_true, beq_iff_eq] at delimiter
  rcases delimiter with (rfl | rfl) | rfl <;> cases hstart

/-- A number ends at the first closing bracket, and a string at its closing quote. -/
theorem IsLiteral.append_inj {a b : String} {s t : List Char} (ha : IsLiteral a)
    (hb : IsLiteral b) (h : a.toList ++ ']' :: s = b.toList ++ ']' :: t) : a = b ∧ s = t := by
  have hcore : a.toList = b.toList ∧ s = t := by
    rcases ha with ha | ha <;> rcases hb with hb | hb
    · exact Text.append_cons_inj ha.open_end hb.open_end h
    · exact absurd h (ha.append_ne hb)
    · exact absurd h.symm (hb.append_ne ha)
    · obtain ⟨htext, hrest⟩ := ha.append_inj hb h
      exact ⟨htext, (List.cons.inj hrest).2⟩
  exact ⟨String.toList_inj.mp hcore.1, hcore.2⟩

/-- What follows a name in a path: nothing, or something that starts with a mark. -/
def EndsName (s : List Char) : Prop := ∀ c ∈ s.head?, isPathMark c = true

/-- What follows a chain in a path: nothing, or the bracket that closes it. -/
def EndsChain (s : List Char) : Prop := ∀ c ∈ s.head?, c = ']'

theorem plain_append_inj {cs ds s t : List Char} (hcs : cs.any isPathMark = false)
    (hds : ds.any isPathMark = false) (hs : EndsName s) (ht : EndsName t)
    (h : cs ++ s = ds ++ t) : cs = ds ∧ s = t := by
  rw [List.any_eq_false] at hcs hds
  exact Text.run_append_inj (p := fun c => !isPathMark c)
    (fun c hc => Bool.not_eq_true' _ ▸ Bool.eq_false_iff.mpr (hcs c hc))
    (fun d hd => Bool.not_eq_true' _ ▸ Bool.eq_false_iff.mpr (hds d hd))
    (fun c hc => congrArg not (hs c hc)) (fun c hc => congrArg not (ht c hc)) h

theorem IsName.append_inj {a b : String} {s t : List Char} (ha : IsName a) (hb : IsName b)
    (hs : EndsName s) (ht : EndsName t) (h : a.toList ++ s = b.toList ++ t) : a = b ∧ s = t := by
  obtain ⟨htext, hrest⟩ := plain_append_inj ha.plain hb.plain hs ht h
  exact ⟨String.toList_inj.mp htext, hrest⟩

end Chain

/-! ## Reading a chain from the left -/

namespace Link

open Chain

/-- The link consists of names and literals. -/
inductive Spelled : Link → Prop
  | property {name : String} (hname : IsName name) : Spelled (.property name)
  | literal {text : String} (htext : IsLiteral text) : Spelled (.literal text)
  | chain {root : String} {links : List Link} (hroot : IsName root)
      (hlinks : ∀ l ∈ links, Spelled l) : Spelled (.chain root links)

theorem chars_start (l : Link) : ∃ c cs, l.chars = c :: cs ∧ (c = '.' ∨ c = '[') := by
  cases l with
  | property name => exact ⟨_, _, rfl, .inl rfl⟩
  | literal text => exact ⟨_, _, rfl, .inr rfl⟩
  | chain root links => exact ⟨_, _, rfl, .inr rfl⟩

theorem chars_append_ne {l : Link} {s t : List Char} (ht : EndsChain t) : l.chars ++ s ≠ t := by
  obtain ⟨c, cs, hchars, hc⟩ := l.chars_start
  rintro rfl
  rw [hchars] at ht
  obtain rfl : c = ']' := ht c rfl
  rcases hc with hc | hc <;> cases hc

theorem endsName_charsOf {s : List Char} (ls : List Link) (hs : EndsChain s) :
    EndsName (charsOf ls ++ s) := by
  cases ls with
  | nil =>
    intro c hc
    rw [hs c hc]
    rfl
  | cons l ls =>
    obtain ⟨c, cs, hchars, hc⟩ := l.chars_start
    intro d hd
    rw [charsOf, hchars] at hd
    obtain rfl : c = d := Option.some.inj hd
    rcases hc with rfl | rfl <;> rfl

/-- The end of the link can be told, whatever follows. -/
def Determined (l : Link) : Prop :=
  ∀ {m : Link} {s t : List Char}, m.Spelled → EndsName s → EndsName t →
    l.chars ++ s = m.chars ++ t → l = m ∧ s = t

/-- Links are read one by one up to the bracket that closes them. -/
theorem links_append_inj {ls ms : List Link} {s t : List Char} (hls : ∀ l ∈ ls, l.Determined)
    (hms : ∀ m ∈ ms, m.Spelled) (hs : EndsChain s) (ht : EndsChain t)
    (h : charsOf ls ++ s = charsOf ms ++ t) : ls = ms ∧ s = t := by
  induction ls generalizing ms with
  | nil =>
    cases ms with
    | nil => exact ⟨rfl, h⟩
    | cons m ms =>
      rw [charsOf, charsOf, List.append_assoc] at h
      exact absurd h.symm (chars_append_ne hs)
  | cons l ls ih =>
    cases ms with
    | nil =>
      rw [charsOf, charsOf, List.append_assoc] at h
      exact absurd h (chars_append_ne ht)
    | cons m ms =>
      rw [charsOf, charsOf, List.append_assoc, List.append_assoc] at h
      obtain ⟨rfl, hrest⟩ := hls l List.mem_cons_self (hms m List.mem_cons_self)
        (endsName_charsOf ls hs) (endsName_charsOf ms ht) h
      obtain ⟨rfl, hst⟩ := ih (List.forall_mem_of_forall_mem_cons hls)
        (List.forall_mem_of_forall_mem_cons hms) hrest
      exact ⟨rfl, hst⟩

theorem literal_chars_append (text : String) (s : List Char) :
    (literal text).chars ++ s = '[' :: (text.toList ++ ']' :: s) := by
  simp only [chars, List.cons_append, List.append_assoc, List.nil_append]

theorem chain_chars_append (root : String) (links : List Link) (s : List Char) :
    (chain root links).chars ++ s = '[' :: (root.toList ++ (charsOf links ++ ']' :: s)) := by
  simp only [chars, List.cons_append, List.append_assoc, List.nil_append]

/-- A literal in brackets is no chain in brackets. -/
theorem literal_append_ne {text root : String} {s t : List Char} (htext : IsLiteral text)
    (hroot : IsName root) : text.toList ++ s ≠ root.toList ++ t := by
  obtain ⟨c, cs, hcs, hc⟩ := htext.start
  obtain ⟨d, ds, hds, hd⟩ := hroot.start
  rw [hcs, hds]
  intro h
  obtain ⟨rfl, -⟩ := List.cons.inj h
  rw [hc] at hd
  cases hd

theorem Spelled.determined {l : Link} (h : l.Spelled) : l.Determined := by
  induction h with
  | property hname =>
    intro m s t hm hs ht heq
    cases hm with
    | property hname' =>
      obtain ⟨rfl, hst⟩ := hname.append_inj hname' hs ht (List.cons.inj heq).2
      exact ⟨rfl, hst⟩
    | literal => cases (List.cons.inj heq).1
    | chain => cases (List.cons.inj heq).1
  | literal htext =>
    intro m s t hm hs ht heq
    cases hm with
    | property => cases (List.cons.inj heq).1
    | literal htext' =>
      rw [literal_chars_append, literal_chars_append] at heq
      obtain ⟨rfl, hst⟩ := htext.append_inj htext' (List.cons.inj heq).2
      exact ⟨rfl, hst⟩
    | chain hroot =>
      rw [literal_chars_append, chain_chars_append] at heq
      exact absurd (List.cons.inj heq).2 (literal_append_ne htext hroot)
  | chain hroot _ ih =>
    intro m s t hm hs ht heq
    cases hm with
    | property => cases (List.cons.inj heq).1
    | literal htext =>
      rw [literal_chars_append, chain_chars_append] at heq
      exact absurd (List.cons.inj heq).2.symm (literal_append_ne htext hroot)
    | chain hroot' hlinks =>
      have hclosed (rest : List Char) : EndsChain (']' :: rest) := fun c hc =>
        (Option.some.inj hc).symm
      rw [chain_chars_append, chain_chars_append] at heq
      obtain ⟨rfl, hrest⟩ := hroot.append_inj hroot' (endsName_charsOf _ (hclosed s))
        (endsName_charsOf _ (hclosed t)) (List.cons.inj heq).2
      obtain ⟨rfl, hst⟩ := links_append_inj ih hlinks (hclosed s) (hclosed t) hrest
      exact ⟨rfl, (List.cons.inj hst).2⟩

end Link

namespace Chain

structure Spelled (c : Chain) : Prop where
  root : IsName c.root
  links : ∀ l ∈ c.links, l.Spelled

theorem Spelled.path_inj {c d : Chain} (hc : c.Spelled) (hd : d.Spelled)
    (h : c.path = d.path) : c = d := by
  have hend : EndsChain [] := fun _ hmem => by cases hmem
  have hchars : c.root.toList ++ (Link.charsOf c.links ++ []) =
      d.root.toList ++ (Link.charsOf d.links ++ []) := by
    rw [List.append_nil, List.append_nil]
    exact String.ofList_injective h
  obtain ⟨hroot, hrest⟩ := hc.root.append_inj hd.root (Link.endsName_charsOf _ hend)
    (Link.endsName_charsOf _ hend) hchars
  obtain ⟨hlinks, -⟩ := Link.links_append_inj (fun l hl => (hc.links l hl).determined) hd.links
    hend hend hrest
  cases c
  cases d
  cases hroot
  cases hlinks
  rfl

end Chain

/-! ## Expressions that are chains -/

namespace Tree

/-- The kinds of nodes that are names of their own in an access chain. -/
def Kind.isRoot : Kind → Bool
  | .identifier | .shorthandPropertyIdentifier | .propertyIdentifier => true
  | _ => false

/-- The expression is the chain, looking through wrappers. -/
inductive Denotes : Tree → Chain → Prop
  | root {t : Tree} (kind : t.kind.isRoot = true) : Denotes t ⟨t.text, []⟩
  | property {t object property : Tree} {c : Chain} (kind : t.kind = .memberExpression)
      (hobject : t.childByField? "object" = some object) (chain : Denotes object c)
      (hproperty : t.childByField? "property" = some property) :
    Denotes t (c.snoc (.property property.text))
  | literal {t object index : Tree} {c : Chain} (kind : t.kind = .subscriptExpression)
      (hobject : t.childByField? "object" = some object) (chain : Denotes object c)
      (hindex : t.childByField? "index" = some index)
      (hliteral : index.kind.isIndexLiteral = true) :
    Denotes t (c.snoc (.literal index.text))
  | subscript {t object index : Tree} {c d : Chain} (kind : t.kind = .subscriptExpression)
      (hobject : t.childByField? "object" = some object) (chain : Denotes object c)
      (hindex : t.childByField? "index" = some index) (inner : Denotes index d) :
    Denotes t (c.snoc (.chain d.root d.links))
  | wrapper {t operand : Tree} {c : Chain} (hoperand : t.wrapped? = some operand)
      (chain : Denotes operand c) : Denotes t c

variable {t u : Tree}

theorem accessPath?_of_isRoot (h : t.kind.isRoot = true) : t.accessPath? = some t.text := by
  obtain ⟨info, children⟩ := t
  have hkind : info.kind.isRoot = true := h
  unfold Kind.isRoot at hkind
  split at hkind
  case h_4 => cases hkind
  all_goals
    next hk =>
      rw [accessPath?, hk]
      rfl

theorem head?_accessPaths (name : String) (t : Tree) :
    (accessPaths (inField name) t.children).head?.join =
      (t.childByField? name).bind accessPath? := by
  rw [accessPaths_eq, List.head?_map, List.head?_filter, childByField?]
  cases t.children.find? (inField name) <;> rfl

theorem accessPath?_member (h : t.kind = .memberExpression) :
    t.accessPath? =
      ((t.childByField? "object").bind accessPath?).bind fun path =>
        (t.childByField? "property").map fun property => path ++ "." ++ property.text := by
  have hobject := head?_accessPaths "object" t
  obtain ⟨info, children⟩ := t
  rw [accessPath?, show info.kind = _ from h, ← hobject]
  refine congrArg (Option.bind _) (funext fun path => ?_)
  cases childByField? (.node info children) "property" <;> rfl

/-- What stands between the brackets of a subscript. -/
def elementPath? (index : Tree) : Option String :=
  match index.kind with
  | .stringLiteral | .numberLiteral => some index.text
  | _ => index.accessPath?

theorem accessPath?_subscript (h : t.kind = .subscriptExpression) :
    t.accessPath? =
      ((t.childByField? "object").bind accessPath?).bind fun path =>
        (t.childByField? "index").bind fun index =>
          index.elementPath?.map fun element => path ++ "[" ++ element ++ "]" := by
  have hobject := head?_accessPaths "object" t
  obtain ⟨info, children⟩ := t
  have hindex : (accessPaths (inField "index") children).head?.join =
      ((Tree.node info children).childByField? "index").bind accessPath? :=
    head?_accessPaths "index" (.node info children)
  rw [accessPath?, show info.kind = _ from h, hindex, ← hobject]
  refine congrArg (Option.bind _) (funext fun path => ?_)
  cases hfound : childByField? (.node info children) "index" with
  | none => rfl
  | some index =>
    -- The two sides look at the kind of the index in the same way.
    simp only [Option.bind_eq_bind, Option.bind_some, elementPath?]
    split
    case h_1 | h_2 => simp [*]
    case h_3 => cases index.accessPath? <;> simp

theorem elementPath?_of_isIndexLiteral (h : t.kind.isIndexLiteral = true) :
    t.elementPath? = some t.text := by
  unfold Kind.isIndexLiteral at h
  split at h
  case h_3 => cases h
  all_goals next hk => rw [elementPath?, hk]

theorem elementPath?_of_accessPath? {path : String} (h : t.accessPath? = some path) :
    t.elementPath? = some path := by
  obtain ⟨info, children⟩ := t
  unfold elementPath?
  split
  case h_3 => exact h
  all_goals
    next hk =>
      rw [accessPath?, show info.kind = _ from hk] at h
      cases h

theorem Denotes.accessPath? {c : Chain} (h : t.Denotes c) : t.accessPath? = some c.path := by
  induction h with
  | root kind =>
    rw [accessPath?_of_isRoot kind]
    simp [Chain.path, Link.charsOf]
  | property kind hobject _ hproperty ih =>
    rw [accessPath?_member kind, hobject, hproperty, Chain.path_property, Option.bind_some, ih]
    rfl
  | literal kind hobject _ hindex hliteral ih =>
    rw [accessPath?_subscript kind, hobject, hindex, Chain.path_literal, Option.bind_some, ih,
      Option.bind_some, Option.bind_some, elementPath?_of_isIndexLiteral hliteral]
    rfl
  | subscript kind hobject _ hindex _ ih ihinner =>
    rw [accessPath?_subscript kind, hobject, hindex, Chain.path_chain, Option.bind_some, ih,
      Option.bind_some, Option.bind_some, elementPath?_of_accessPath? ihinner]
    rfl
  | wrapper hoperand _ ih => rw [accessPath?_of_wrapped? hoperand, ih]

/-- What stands between the brackets is a literal, or it has a path of its own. -/
theorem elementPath?_eq_some {element : String} (h : t.elementPath? = some element) :
    (t.kind.isIndexLiteral = true ∧ t.text = element) ∨ t.accessPath? = some element := by
  unfold elementPath? at h
  split at h
  case h_3 => exact .inr h
  all_goals
    next hk =>
      left
      rw [hk]
      exact ⟨rfl, Option.some.inj h⟩

theorem accessPath?_of_no_wrapped? (hroot : t.kind.isRoot = false)
    (hmember : t.kind ≠ .memberExpression) (hsubscript : t.kind ≠ .subscriptExpression)
    (hoperand : t.wrapped? = none) : t.accessPath? = none := by
  obtain ⟨info, children⟩ := t
  change info.kind.isRoot = false at hroot
  rw [accessPath?]
  split
  case h_1 hk | h_2 hk | h_3 hk =>
    rw [hk] at hroot
    cases hroot
  case h_4 hk => exact absurd hk hmember
  case h_5 hk => exact absurd hk hsubscript
  case h_10 hk =>
    rw [wrapped?, show (node info children).kind = _ from hk] at hoperand
    have hlast : (children.filter isOperand).getLast? = none := hoperand
    rw [accessPaths_eq, List.getLast?_map, hlast]
    rfl
  case h_11 => rfl
  all_goals
    next hk =>
      rw [wrapped?, show (node info children).kind = _ from hk] at hoperand
      have hfirst : (children.filter isOperand).head? = none := hoperand
      rw [accessPaths_eq, List.head?_map, hfirst]
      rfl

/-- What has a path is a chain. -/
theorem exists_denotes {path : String} (h : t.accessPath? = some path) : ∃ c, t.Denotes c := by
  induction t using induct generalizing path with
  | node info children ih =>
    by_cases hroot : (node info children).kind.isRoot = true
    · exact ⟨_, .root hroot⟩
    by_cases hmember : (node info children).kind = .memberExpression
    · rw [accessPath?_member hmember, Option.bind_eq_some_iff] at h
      obtain ⟨_, hobject, h⟩ := h
      obtain ⟨object, hfound, hobject⟩ := Option.bind_eq_some_iff.mp hobject
      obtain ⟨property, hproperty, -⟩ := Option.map_eq_some_iff.mp h
      obtain ⟨c, hc⟩ := ih object (mem_of_childByField? hfound) hobject
      exact ⟨_, .property hmember hfound hc hproperty⟩
    by_cases hsubscript : (node info children).kind = .subscriptExpression
    · rw [accessPath?_subscript hsubscript, Option.bind_eq_some_iff] at h
      obtain ⟨_, hobject, h⟩ := h
      obtain ⟨object, hfound, hobject⟩ := Option.bind_eq_some_iff.mp hobject
      obtain ⟨index, hindex, h⟩ := Option.bind_eq_some_iff.mp h
      obtain ⟨element, helement, -⟩ := Option.map_eq_some_iff.mp h
      obtain ⟨c, hc⟩ := ih object (mem_of_childByField? hfound) hobject
      rcases elementPath?_eq_some helement with ⟨hliteral, -⟩ | hinner
      · exact ⟨_, .literal hsubscript hfound hc hindex hliteral⟩
      · obtain ⟨d, hd⟩ := ih index (mem_of_childByField? hindex) hinner
        exact ⟨_, .subscript hsubscript hfound hc hindex hd⟩
    cases hoperand : (node info children).wrapped? with
    | none =>
      rw [accessPath?_of_no_wrapped? (Bool.eq_false_iff.mpr hroot) hmember hsubscript hoperand] at h
      cases h
    | some operand =>
      rw [accessPath?_of_wrapped? hoperand] at h
      obtain ⟨c, hc⟩ := ih operand (mem_of_wrapped? hoperand) h
      exact ⟨c, .wrapper hoperand hc⟩

theorem not_denotes_of_isIndexLiteral {c : Chain} (h : t.kind.isIndexLiteral = true) :
    ¬ t.Denotes c := by
  intro hc
  have hnone : t.accessPath? = none := by
    rw [accessPath?_of_coreKind]
    rw [coreKind_eq, wrapped?_of_literal h]
    exact h
  rw [hc.accessPath?] at hnone
  cases hnone

theorem kind_of_wrapped? {operand : Tree} (h : t.wrapped? = some operand) :
    t.kind.isRoot = false ∧ t.kind ≠ .memberExpression ∧ t.kind ≠ .subscriptExpression := by
  unfold wrapped? at h
  split at h
  case h_6 => cases h
  all_goals
    next hk =>
      rw [hk]
      exact ⟨rfl, by decide, by decide⟩

/-- An expression is one chain at most. -/
theorem Denotes.unique {c d : Chain} (hc : t.Denotes c) (hd : t.Denotes d) : c = d := by
  induction hc generalizing d with
  | root kind =>
    cases hd with
    | root => rfl
    | property kind' | literal kind' | subscript kind' =>
      rw [kind'] at kind
      cases kind
    | wrapper hoperand =>
      rw [(kind_of_wrapped? hoperand).1] at kind
      cases kind
  | property kind hobject _ hproperty ih =>
    cases hd with
    | root kind' =>
      rw [kind] at kind'
      cases kind'
    | property _ hobject' chain hproperty' =>
      obtain rfl := Option.some.inj (hobject.symm.trans hobject')
      obtain rfl := Option.some.inj (hproperty.symm.trans hproperty')
      rw [ih chain]
    | literal kind' | subscript kind' => cases kind.symm.trans kind'
    | wrapper hoperand => exact absurd kind (kind_of_wrapped? hoperand).2.1
  | literal kind hobject _ hindex hliteral ih =>
    cases hd with
    | root kind' =>
      rw [kind] at kind'
      cases kind'
    | property kind' => cases kind.symm.trans kind'
    | literal _ hobject' chain hindex' =>
      obtain rfl := Option.some.inj (hobject.symm.trans hobject')
      obtain rfl := Option.some.inj (hindex.symm.trans hindex')
      rw [ih chain]
    | subscript _ _ _ hindex' inner =>
      obtain rfl := Option.some.inj (hindex.symm.trans hindex')
      exact absurd inner (not_denotes_of_isIndexLiteral hliteral)
    | wrapper hoperand => exact absurd kind (kind_of_wrapped? hoperand).2.2
  | subscript kind hobject _ hindex hinner ih ihinner =>
    cases hd with
    | root kind' =>
      rw [kind] at kind'
      cases kind'
    | property kind' => cases kind.symm.trans kind'
    | literal _ _ _ hindex' hliteral =>
      obtain rfl := Option.some.inj (hindex.symm.trans hindex')
      exact absurd hinner (not_denotes_of_isIndexLiteral hliteral)
    | subscript _ hobject' chain hindex' inner =>
      obtain rfl := Option.some.inj (hobject.symm.trans hobject')
      obtain rfl := Option.some.inj (hindex.symm.trans hindex')
      rw [ih chain, ihinner inner]
    | wrapper hoperand => exact absurd kind (kind_of_wrapped? hoperand).2.2
  | wrapper hoperand _ ih =>
    obtain ⟨hroot, hmember, hsubscript⟩ := kind_of_wrapped? hoperand
    cases hd with
    | root kind =>
      rw [hroot] at kind
      cases kind
    | property kind => exact absurd kind hmember
    | literal kind | subscript kind => exact absurd kind hsubscript
    | wrapper hoperand' chain =>
      obtain rfl := Option.some.inj (hoperand.symm.trans hoperand')
      exact ih chain

theorem accessPath?_eq_some_iff {path : String} :
    t.accessPath? = some path ↔ ∃ c, t.Denotes c ∧ c.path = path := by
  constructor
  · intro h
    obtain ⟨c, hc⟩ := exists_denotes h
    exact ⟨c, hc, Option.some.inj (hc.accessPath?.symm.trans h)⟩
  · rintro ⟨c, hc, rfl⟩
    exact hc.accessPath?

theorem exists_denotes_of_referencePath (h : t.referencePath ≠ "") :
    ∃ c, t.Denotes c ∧ t.referencePath = c.path := by
  rw [referencePath] at h ⊢
  cases hpath : t.accessPath? with
  | none =>
    rw [hpath] at h
    exact absurd rfl h
  | some path =>
    obtain ⟨c, hc, hcpath⟩ := accessPath?_eq_some_iff.mp hpath
    exact ⟨c, hc, hcpath.symm⟩

/-- Two expressions have the same reference path exactly if they are the same access chain. -/
theorem referencePath_eq_iff (ht : t.referencePath ≠ "") (hu : u.referencePath ≠ "")
    (hspelled : ∀ c, t.Denotes c → c.Spelled) (hspelled' : ∀ c, u.Denotes c → c.Spelled) :
    t.referencePath = u.referencePath ↔ ∃! c, t.Denotes c ∧ u.Denotes c := by
  obtain ⟨c, hc, hcpath⟩ := exists_denotes_of_referencePath ht
  obtain ⟨d, hd, hdpath⟩ := exists_denotes_of_referencePath hu
  rw [hcpath, hdpath]
  constructor
  · intro hpath
    obtain rfl := (hspelled c hc).path_inj (hspelled' d hd) hpath
    exact ⟨c, ⟨hc, hd⟩, fun e he => he.1.unique hc⟩
  · rintro ⟨e, ⟨he, he'⟩, -⟩
    rw [hc.unique he, hd.unique he']

/-- The expression `(row!.cells)["a]"][keys?.[0]]`. -/
def wrappedCell : Tree :=
  namedNode .subscriptExpression none 0 29 "(row!.cells)[\"a]\"][keys?.[0]]"
    [namedNode .subscriptExpression (some "object") 0 18 "(row!.cells)[\"a]\"]"
      [namedNode .parenthesizedExpression (some "object") 0 12 "(row!.cells)"
        [namedNode .memberExpression none 1 11 "row!.cells"
          [namedNode .nonNullExpression (some "object") 1 5 "row!"
            [namedNode .identifier none 1 4 "row" []],
          namedNode .propertyIdentifier (some "property") 6 11 "cells" []]],
      namedNode .stringLiteral (some "index") 13 17 "\"a]\"" []],
    namedNode .subscriptExpression (some "index") 19 28 "keys?.[0]"
      [namedNode .identifier (some "object") 19 23 "keys" [],
      namedNode .optionalChain (some "optional_chain") 23 25 "?." [],
      namedNode .numberLiteral (some "index") 26 27 "0" []]]

/-- The expression `row.cells["a]"][keys[0]]`. -/
def plainCell : Tree :=
  namedNode .subscriptExpression none 0 24 "row.cells[\"a]\"][keys[0]]"
    [namedNode .subscriptExpression (some "object") 0 15 "row.cells[\"a]\"]"
      [namedNode .memberExpression (some "object") 0 9 "row.cells"
        [namedNode .identifier (some "object") 0 3 "row" [],
        namedNode .propertyIdentifier (some "property") 4 9 "cells" []],
      namedNode .stringLiteral (some "index") 10 14 "\"a]\"" []],
    namedNode .subscriptExpression (some "index") 16 23 "keys[0]"
      [namedNode .identifier (some "object") 16 20 "keys" [],
      namedNode .numberLiteral (some "index") 21 22 "0" []]]

def cellChain : Chain :=
  ⟨"row", [.property "cells", .literal "\"a]\"", .chain "keys" [.literal "0"]]⟩

theorem cellChain_spelled : cellChain.Spelled := by
  have hrow : Chain.IsName "row" := ⟨by decide, by decide, by decide, by decide⟩
  have hcells : Chain.IsName "cells" := ⟨by decide, by decide, by decide, by decide⟩
  have hkeys : Chain.IsName "keys" := ⟨by decide, by decide, by decide, by decide⟩
  have hzero : Chain.IsLiteral "0" := .inl ⟨by decide, by decide⟩
  have hescaped : Text.Escaped '"' ['a', ']'] := Text.escaped_of_all (by decide)
  have hstring : Chain.IsLiteral "\"a]\"" := .inr (.mk rfl hescaped)
  refine ⟨hrow, fun l hl => ?_⟩
  simp only [cellChain, List.mem_cons, List.not_mem_nil, or_false] at hl
  rcases hl with rfl | rfl | rfl
  · exact .property hcells
  · exact .literal hstring
  · refine .chain hkeys fun l hl => ?_
    obtain rfl := List.mem_singleton.mp hl
    exact .literal hzero

theorem wrappedCell_denotes : wrappedCell.Denotes cellChain := by
  have h := Denotes.subscript (t := wrappedCell) rfl rfl
    (.literal rfl rfl (.wrapper rfl (.property rfl rfl (.wrapper rfl (.root rfl)) rfl)) rfl rfl) rfl
    (.literal rfl rfl (.root rfl) rfl rfl)
  exact h

theorem plainCell_denotes : plainCell.Denotes cellChain := by
  have h := Denotes.subscript (t := plainCell) rfl rfl
    (.literal rfl rfl (.property rfl rfl (.root rfl) rfl) rfl rfl) rfl
    (.literal rfl rfl (.root rfl) rfl rfl)
  exact h

/-- Two ways to write one chain, with a string that holds a closing bracket. -/
theorem cells_denote_one_chain :
    (∃! c, wrappedCell.Denotes c ∧ plainCell.Denotes c) ∧
      wrappedCell.referencePath = "row.cells[\"a]\"][keys[0]]" :=
  ⟨(referencePath_eq_iff (by decide) (by decide)
      (fun _ hc => wrappedCell_denotes.unique hc ▸ cellChain_spelled)
      (fun _ hc => plainCell_denotes.unique hc ▸ cellChain_spelled)).mp rfl, rfl⟩

end Tree
end Reify
