/-
Lowering writes shaped nodes.

One case for each form: what lowers to a node is shaped for its role when what its parts lower
to is shaped for theirs.  The induction is on the syntax tree and looks two levels down, since
the arguments of an invocation are children of its argument list.
-/
import Reify.Proofs.Lowering.Parts
import Reify.Proofs.Node.Shape

namespace Reify

open Lowering Node

def Position.role : Position → Role
  | value | substitution => .expression
  | element => .item
  | property => .property
  | propertyName => .propertyName
  | functionBody | block | loopBody | finallyClause => .block
  | branch | elseClause | declarator => .statement
  | catchClause => .catchClause

structure LowersShaped (o : Oracle) (t : Tree) : Prop where
  expr : ∀ n, lowerExpr o t = .ok n → Shaped .expression n
  statement : ∀ ns, lowerStatement o t = .ok ns → ∀ n ∈ ns, Shaped .statement n
  part : ∀ pos n, lowerAt o pos t = .ok n → Shaped pos.role n

namespace Shaped

theorem inner {role : Role} {n : Node} (kind : role.admits n.kind = true)
    (hrole : role.isLeaf = false) (operator : n.hasKnownOperator = true)
    (hparts : ∀ p ∈ n.parts, Shaped p.1 p.2) : Shaped role n := by
  refine .node kind (fun htrue => ?_) operator hparts
  rw [hrole] at htrue
  cases htrue

theorem leaf {role : Role} {n : Node} (kind : role.admits n.kind = true)
    (operator : n.hasKnownOperator = true) (hparts : n.parts = []) : Shaped role n := by
  refine .node kind (fun _ => ?_) operator fun p hp => ?_
  · rw [← map_snd_parts, hparts, List.map_nil]
  · rw [hparts] at hp
    cases hp

theorem expression {n : Node} (kind : Role.expression.admits n.kind = true)
    (operator : n.hasKnownOperator = true) (hparts : ∀ p ∈ n.parts, Shaped p.1 p.2) :
    Shaped .expression n :=
  .inner kind rfl operator hparts

theorem weaken {role wider : Role} {n : Node} (h : Shaped role n)
    (hkinds : role.kinds.all wider.admits = true) (hleaf : wider.isLeaf = false) :
    Shaped wider n := by
  cases h with
  | node kind _ operator parts =>
    refine .inner ?_ hleaf operator parts
    exact List.all_eq_true.mp hkinds _ (List.contains_iff_mem.mp kind)

theorem item {n : Node} (h : Shaped .expression n) : Shaped .item n := h.weaken rfl rfl

theorem block_statement {n : Node} (h : Shaped .block n) : Shaped .statement n := h.weaken rfl rfl

theorem parameterDecl (name : String) : Shaped .parameter (.parameterDecl name) :=
  .leaf rfl rfl rfl

theorem blockStmt {ns : List Node} (h : ∀ n ∈ ns, Shaped .statement n) :
    Shaped .block (.blockStmt ns) := by
  refine .inner rfl rfl rfl fun p hp => ?_
  obtain ⟨n, hn, rfl⟩ := List.mem_map.mp hp
  exact h n hn

theorem functionExpr {names : List String} {b : Node} (h : Shaped .block b) :
    Shaped .expression (.functionExpr (names.map .parameterDecl) b) := by
  refine .inner rfl rfl rfl fun p hp => ?_
  rcases List.mem_append.mp hp with hp | hp
  · obtain ⟨n, hn, rfl⟩ := List.mem_map.mp hp
    obtain ⟨name, -, rfl⟩ := List.mem_map.mp hn
    exact parameterDecl name
  · obtain rfl := List.mem_singleton.mp hp
    exact h

end Shaped

section Below

variable {o : Oracle} {t : Tree} (hbelow : ∀ c ∈ t.children, LowersShaped o c)

include hbelow

theorem FieldForm.shaped {pos : Position} {name : String} {n : Node}
    (h : FieldForm o t pos name n) : Shaped pos.role n := by
  obtain ⟨c, hc, hn⟩ := h
  exact (hbelow c (Tree.mem_of_childByField? hc)).part pos n hn

theorem OperandForm.shaped {pos : Position} {n : Node} (h : OperandForm o t pos n) :
    Shaped pos.role n := by
  obtain ⟨c, hc, hn⟩ := h
  exact (hbelow c (Tree.mem_of_firstNamedChild? hc)).part pos n hn

theorem OptionalForm.shaped {pos : Position} {name : String} {n? : Option Node}
    (h : OptionalForm o t pos name n?) : ∀ n ∈ n?.toList, Shaped pos.role n := by
  intro n hn
  unfold OptionalForm at h
  cases hc : t.childByField? name with
  | none => rw [hc] at h; cases h; cases hn
  | some c =>
    rw [hc] at h
    cases h with
    | some hm =>
      obtain rfl := List.mem_singleton.mp hn
      exact (hbelow c (Tree.mem_of_childByField? hc)).part pos _ hm

theorem ListForm.shaped {pos : Position} {p : Tree → Bool} {ns : List Node}
    (h : ListForm o t pos p ns) : ∀ n ∈ ns, Shaped pos.role n :=
  forall_of_forall₂ h fun c hc n hn =>
    (hbelow c (List.mem_of_mem_filter hc)).part pos n hn

theorem StatementsForm.shaped {ns : List Node} (h : StatementsForm o t ns) :
    ∀ n ∈ ns, Shaped .statement n := by
  obtain ⟨nss, hnss, rfl⟩ := h
  rw [List.forall_mem_flatten]
  exact forall_of_forall₂ hnss fun c hc ms hms =>
    (hbelow c (Tree.mem_of_mem_namedChildren hc)).statement ms hms

end Below

theorem resolveReference?_shaped {o : Oracle} {t : Tree} {n : Node}
    (h : o.resolveReference? t = some n) : Shaped .expression n := by
  unfold Oracle.resolveReference? at h
  split at h
  · obtain rfl := Option.some.inj h
    exact .leaf rfl rfl rfl
  · cases h

theorem literalOf?_shaped {i : Tree.Info} {n : Node} (h : literalOf? i = some n) :
    Shaped .expression n := by
  unfold literalOf? at h
  split at h
  case h_7 => cases h
  all_goals
    obtain rfl := Option.some.inj h
    exact .leaf rfl rfl rfl

theorem ValueForm.shaped {o : Oracle} {supplied : List Tree} {index : Nat} {p : Parameter}
    {n? : Option Node} (h : ValueForm o supplied index p n?)
    (hargs : ∀ c ∈ supplied, LowersShaped o c) : ∀ n ∈ n?.toList, Shaped .item n := by
  cases h with
  | @rest ns _ lowered =>
    intro n hn
    obtain rfl := List.mem_singleton.mp hn
    have hitems : ∀ m ∈ ns, Shaped .item m := forall_of_forall₂ lowered fun c hc m hm =>
      (hargs c (List.mem_of_mem_drop hc)).part .element m hm
    exact Shaped.item (.expression rfl rfl (by simpa [parts] using hitems))
  | plain _ lowered =>
    intro n hn
    cases hc : supplied[index]? with
    | none => rw [hc] at lowered; cases lowered; cases hn
    | some c =>
      rw [hc] at lowered
      cases lowered with
      | some hm =>
        obtain rfl := List.mem_singleton.mp hn
        exact (hargs c (List.mem_of_getElem? hc)).part .element _ hm

theorem argument_shaped {n? : Option Node} {name : Option String}
    (h : ∀ n ∈ n?.toList, Shaped .item n) : Shaped .argument (.argument n? name) :=
  .inner rfl rfl rfl (by simpa [parts] using h)

theorem BoundForm.shaped {o : Oracle} {supplied : List Tree} {index : Nat} {ps : List Parameter}
    {ns : List Node} (h : BoundForm o supplied index ps ns)
    (hargs : ∀ c ∈ supplied, LowersShaped o c) : ∀ n ∈ ns, Shaped .argument n := by
  induction h with
  | nil => exact List.forall_mem_nil _
  | cons value _ ih =>
    rw [List.forall_mem_cons]
    exact ⟨argument_shaped (value.shaped hargs), ih⟩

theorem ArgumentsForm.shaped {o : Oracle} {t : Tree} {ns : List Node}
    (h : ArgumentsForm o t ns) (hargs : ∀ c ∈ t.callArguments, LowersShaped o c) :
    ∀ n ∈ ns, Shaped .argument n := by
  cases h with
  | bound _ bound => exact bound.shaped hargs
  | positional _ _ lowered =>
    intro n hn
    obtain ⟨m, hm, rfl⟩ := List.mem_map.mp hn
    have hitem : Shaped .item m := forall_of_forall₂ lowered
      (fun c hc m hm => (hargs c hc).part .element m hm) m hm
    exact argument_shaped (by simpa using hitem)

theorem contains_of_lookup {table : List (String × String)} {token symbol : String}
    (h : table.lookup token = some symbol) : (table.map Prod.snd).contains symbol = true := by
  induction table with
  | nil => cases h
  | cons entry table ih =>
    obtain ⟨key, value⟩ := entry
    rw [List.lookup_cons] at h
    rw [List.map_cons, List.contains_cons, Bool.or_eq_true]
    split at h
    · obtain rfl := Option.some.inj h
      exact .inl (beq_self_eq_true value)
    · exact .inr (ih h)

theorem ExprForm.shaped {o : Oracle} {t : Tree} {n : Node} (h : ExprForm o t n)
    (hbelow : ∀ c ∈ t.children, LowersShaped o c)
    (hargs : ∀ c ∈ t.callArguments, LowersShaped o c) : Shaped .expression n := by
  cases h with
  | undefinedName | name => exact .leaf rfl rfl rfl
  | nameReference _ _ reference => exact resolveReference?_shaped reference
  | literal found => exact literalOf?_shaped found
  | template _ assembled =>
    obtain ⟨parts, rfl, hparts⟩ := assemble_template_form assembled
    have hnodes : ∀ m ∈ parts.filterMap TemplatePart.node?, Shaped .expression m :=
      forall_of_forall₂ hparts fun c hc m hm =>
        (hbelow c (List.mem_of_mem_filter hc)).part .substitution m hm
    refine .expression rfl rfl fun p hp => ?_
    obtain ⟨m, hm, rfl⟩ := List.mem_map.mp hp
    exact hnodes m hm
  | wrapper _ operand => exact operand.shaped hbelow
  | assertion _ operand lowered =>
    exact (hbelow _ (Tree.mem_of_lastNamedChild? operand)).part .value _ lowered
  | accessReference _ _ reference => exact resolveReference?_shaped reference
  | @member m _ _ _ _ object =>
    have hobject : Shaped .expression m := object.shaped hbelow
    exact .expression rfl rfl (by simpa [parts] using hobject)
  | @subscript m i _ _ _ object index =>
    have hobject : Shaped .expression m := object.shaped hbelow
    have hindex : Shaped .expression i := index.shaped hbelow
    exact .expression rfl rfl (by simpa [parts] using ⟨hobject, hindex⟩)
  | @call m args _ _ _ callee bound =>
    have hcallee : Shaped .expression m := callee.shaped hbelow
    have hbound : ∀ n ∈ args, Shaped .argument n := (bindArguments_form bound).shaped hargs
    exact .expression rfl rfl (by simpa [parts] using ⟨hcallee, hbound⟩)
  | @new m args _ _ bound callee =>
    have hcallee : Shaped .expression m := callee.shaped hbelow
    have hbound : ∀ n ∈ args, Shaped .argument n := (bindArguments_form bound).shaped hargs
    exact .expression rfl rfl (by simpa [parts] using ⟨hcallee, hbound⟩)
  | @newBare m _ _ callee =>
    have hcallee : Shaped .expression m := callee.shaped hbelow
    exact .expression rfl rfl (by simpa [parts] using hcallee)
  | @binary _ symbol l r _ _ known left right =>
    have hleft : Shaped .expression l := left.shaped hbelow
    have hright : Shaped .expression r := right.shaped hbelow
    exact .expression rfl (contains_of_lookup known) (by simpa [parts] using ⟨hleft, hright⟩)
  | @assignment l r _ left right =>
    have hleft : Shaped .expression l := left.shaped hbelow
    have hright : Shaped .expression r := right.shaped hbelow
    exact .expression rfl rfl (by simpa [parts] using ⟨hleft, hright⟩)
  | @typeof _ m _ _ _ operand =>
    have hoperand : Shaped .expression m := operand.shaped hbelow
    exact .expression rfl rfl (by simpa [parts] using hoperand)
  | @unary _ symbol m _ _ _ known operand =>
    have hoperand : Shaped .expression m := operand.shaped hbelow
    exact .expression rfl (contains_of_lookup known) (by simpa [parts] using hoperand)
  | @ternary c m e _ condition thenValue elseValue =>
    have hcondition : Shaped .expression c := condition.shaped hbelow
    have hthen : Shaped .expression m := thenValue.shaped hbelow
    have helse : Shaped .expression e := elseValue.shaped hbelow
    exact .expression rfl rfl (by simpa [parts] using ⟨hcondition, hthen, helse⟩)
  | @array ns _ items =>
    have hitems : ∀ m ∈ ns, Shaped .item m := items.shaped hbelow
    exact .expression rfl rfl (by simpa [parts] using hitems)
  | @object ns _ properties =>
    have hproperties : ∀ m ∈ ns, Shaped .property m := properties.shaped hbelow
    exact .expression rfl rfl (by simpa [parts] using hproperties)
  | function _ function => exact .functionExpr (function.body.shaped hbelow)

theorem Shaped.statement {n : Node} (kind : Role.statement.admits n.kind = true)
    (operator : n.hasKnownOperator = true) (hparts : ∀ p ∈ n.parts, Shaped p.1 p.2) :
    Shaped .statement n :=
  .inner kind rfl operator hparts

theorem loopVariable_shaped (t : Tree) (name : String) :
    Shaped .loopVariable (loopVariable t name) := by
  unfold loopVariable
  split <;> exact .leaf rfl rfl rfl

theorem StatementForm.shaped {o : Oracle} {t : Tree} {ns : List Node} (h : StatementForm o t ns)
    (hbelow : ∀ c ∈ t.children, LowersShaped o c) : ∀ n ∈ ns, Shaped .statement n := by
  cases h with
  | @expression m _ operand =>
    have hoperand : Shaped .expression m := operand.shaped hbelow
    exact List.forall_mem_singleton.mpr (.statement rfl rfl (by simpa [parts] using hoperand))
  | block _ statements =>
    exact List.forall_mem_singleton.mpr (Shaped.blockStmt (statements.shaped hbelow)).block_statement
  | declaration _ declarators => exact declarators.shaped hbelow
  | empty => exact List.forall_mem_nil _
  | @«return» n? _ operand =>
    have hvalue : Shaped .expression (n?.getD .undefinedLiteralExpr) := by
      cases hc : t.firstNamedChild? with
      | none => rw [hc] at operand; cases operand; exact .leaf rfl rfl rfl
      | some c =>
        rw [hc] at operand
        cases operand with
        | some hm => exact (hbelow c (Tree.mem_of_firstNamedChild? hc)).part .value _ hm
    exact List.forall_mem_singleton.mpr (.statement rfl rfl (by simpa [parts] using hvalue))
  | @«if» c m m? _ condition thenBranch elseBranch =>
    have hcondition : Shaped .expression c := condition.shaped hbelow
    have hthen : Shaped .statement m := thenBranch.shaped hbelow
    have helse : ∀ e ∈ m?.toList, Shaped .statement e := elseBranch.shaped hbelow
    have hparts := And.intro hcondition (And.intro hthen helse)
    exact List.forall_mem_singleton.mpr (.statement rfl rfl (by simpa [parts] using hparts))
  | @«while» c b _ condition body =>
    have hcondition : Shaped .expression c := condition.shaped hbelow
    have hbody : Shaped .block b := body.shaped hbelow
    exact List.forall_mem_singleton.mpr
      (.statement rfl rfl (by simpa [parts] using ⟨hcondition, hbody⟩))
  | @«do» c b _ body condition =>
    have hbody : Shaped .block b := body.shaped hbelow
    have hcondition : Shaped .expression c := condition.shaped hbelow
    exact List.forall_mem_singleton.mpr
      (.statement rfl rfl (by simpa [parts] using ⟨hbody, hcondition⟩))
  | @forOf left m b _ _ _ _ right body =>
    have htarget := loopVariable_shaped t left.text
    have hright : Shaped .expression m := right.shaped hbelow
    have hbody : Shaped .block b := body.shaped hbelow
    exact List.forall_mem_singleton.mpr
      (.statement rfl rfl (by simpa [parts] using ⟨htarget, hright, hbody⟩))
  | @forIn left m b _ _ _ _ right body =>
    have htarget := loopVariable_shaped t left.text
    have hright : Shaped .expression m := right.shaped hbelow
    have hbody : Shaped .block b := body.shaped hbelow
    exact List.forall_mem_singleton.mpr
      (.statement rfl rfl (by simpa [parts] using ⟨htarget, hright, hbody⟩))
  | «break» | «continue» => exact List.forall_mem_singleton.mpr (.leaf rfl rfl rfl)
  | @«try» b h? f? _ body handler finalizer =>
    have hbody : Shaped .block b := body.shaped hbelow
    have hhandler : ∀ n ∈ h?.toList, Shaped .catchClause n := handler.shaped hbelow
    have hfinalizer : ∀ n ∈ f?.toList, Shaped .block n := finalizer.shaped hbelow
    refine List.forall_mem_singleton.mpr (.statement rfl rfl fun p hp => ?_)
    rcases List.mem_cons.mp hp with rfl | hp
    · exact hbody
    · rcases List.mem_append.mp hp with hp | hp
      · obtain ⟨n, hn, rfl⟩ := List.mem_map.mp hp
        exact hhandler n hn
      · obtain ⟨n, hn, rfl⟩ := List.mem_map.mp hp
        exact hfinalizer n hn
  | @throw m _ operand =>
    have hoperand : Shaped .expression m := operand.shaped hbelow
    exact List.forall_mem_singleton.mpr (.statement rfl rfl (by simpa [parts] using hoperand))
  | @function _ names b _ _ function =>
    have hfunction : Shaped .expression (.functionExpr (names.map .parameterDecl) b) :=
      .functionExpr (function.body.shaped hbelow)
    exact List.forall_mem_singleton.mpr (.statement rfl rfl (by simpa [parts] using hfunction))

theorem single_shaped {ns : List Node} (h : ∀ n ∈ ns, Shaped .statement n) :
    Shaped .statement (single ns) := by
  unfold single
  split
  · exact h _ List.mem_cons_self
  · exact (Shaped.blockStmt h).block_statement

theorem plainPropertyName_shaped {i : Tree.Info} {n : Node} (h : plainPropertyName i = .ok n) :
    Shaped .propertyName n := by
  unfold plainPropertyName at h
  split at h
  case h_4 => cases h
  all_goals
    obtain rfl := Except.ok.inj h
    exact .leaf rfl rfl rfl

theorem catchVariable_shaped {t : Tree} {v? : Option Node} (h : catchVariable t = .ok v?) :
    ∀ n ∈ v?.toList, Shaped .catchVariable n := by
  unfold catchVariable at h
  split at h
  · obtain rfl := Except.ok.inj h
    exact List.forall_mem_nil _
  · split at h
    · obtain rfl := Except.ok.inj h
      exact List.forall_mem_singleton.mpr (.leaf rfl rfl rfl)
    · cases h

theorem PartForm.shaped {o : Oracle} {t : Tree} {pos : Position} {n : Node}
    (h : PartForm o t pos n) (hbelow : ∀ c ∈ t.children, LowersShaped o c)
    (hexpr : ∀ n, lowerExpr o t = .ok n → Shaped .expression n)
    (hstatement : ∀ ns, lowerStatement o t = .ok ns → ∀ n ∈ ns, Shaped .statement n) :
    Shaped pos.role n := by
  cases h with
  | value expr => exact hexpr _ expr
  | @spread m _ operand =>
    have hoperand : Shaped .expression m := operand.shaped hbelow
    exact .inner rfl rfl rfl (by simpa [parts] using hoperand)
  | element _ expr => exact (hexpr _ expr).item
  | @pair k m _ key value =>
    have hkey : Shaped .propertyName k := key.shaped hbelow
    have hvalue : Shaped .expression m := value.shaped hbelow
    exact .inner rfl rfl rfl (by simpa [parts] using ⟨hkey, hvalue⟩)
  | @shorthand m _ expr =>
    have hname : Shaped .propertyName (.identifier t.text) := .leaf rfl rfl rfl
    have hvalue : Shaped .expression m := hexpr _ expr
    exact .inner rfl rfl rfl (by simpa [parts] using ⟨hname, hvalue⟩)
  | @spreadProperty m _ operand =>
    have hoperand : Shaped .expression m := operand.shaped hbelow
    exact .inner rfl rfl rfl (by simpa [parts] using hoperand)
  | @computedName m _ operand =>
    have hoperand : Shaped .expression m := operand.shaped hbelow
    exact .inner rfl rfl rfl (by simpa [parts] using hoperand)
  | plainName name => exact plainPropertyName_shaped name
  | substitution operand => exact operand.shaped hbelow
  | blockBody _ statements => exact .blockStmt (statements.shaped hbelow)
  | @exprBody m _ expr =>
    have hexpr : Shaped .expression m := hexpr _ expr
    refine .blockStmt (List.forall_mem_singleton.mpr ?_)
    exact .statement rfl rfl (by simpa [parts] using hexpr)
  | block statements => exact .blockStmt (statements.shaped hbelow)
  | blockLoop _ statements => exact .blockStmt (statements.shaped hbelow)
  | statementLoop _ statement => exact .blockStmt (hstatement _ statement)
  | branch statement => exact single_shaped (hstatement _ statement)
  | elseClause operand => exact operand.shaped hbelow
  | @declarator name n? _ _ value =>
    have hvalue : ∀ m ∈ n?.toList, Shaped .expression m := value.shaped hbelow
    exact .statement rfl rfl (by simpa [parts] using hvalue)
  | @catchClause v? b target body =>
    have htarget : ∀ m ∈ v?.toList, Shaped .catchVariable m := catchVariable_shaped target
    have hbody : Shaped .block b := body.shaped hbelow
    refine .inner rfl rfl rfl fun p hp => ?_
    rcases List.mem_append.mp hp with hp | hp
    · obtain ⟨m, hm, rfl⟩ := List.mem_map.mp hp
      exact htarget m hm
    · obtain rfl := List.mem_singleton.mp hp
      exact hbody
  | finallyClause body => exact body.shaped hbelow

theorem lowersShaped (o : Oracle) (t : Tree) : LowersShaped o t := by
  induction t using Tree.induct_below with
  | node t ih =>
    have hbelow : ∀ c ∈ t.children, LowersShaped o c := fun c hc => (ih c hc).1
    have hargs : ∀ c ∈ t.callArguments, LowersShaped o c := Tree.forall_mem_callArguments ih
    have hexpr : ∀ n, lowerExpr o t = .ok n → Shaped .expression n :=
      fun n hn => (lowerExpr_form hn).shaped hbelow hargs
    have hstatement : ∀ ns, lowerStatement o t = .ok ns → ∀ n ∈ ns, Shaped .statement n :=
      fun ns hns => (lowerStatement_form hns).shaped hbelow
    exact ⟨hexpr, hstatement, fun pos n hn => (lowerAt_form hn).shaped hbelow hexpr hstatement⟩

/-- A function is reflected as a single error, or as a shaped `functionDecl` that holds no error.
At every node in it, a child whose kind has only one role stands where that role is played; so
there is no other `functionDecl`. -/
theorem lowerReflected_wellFormed (o : Oracle) (drop : Nat) (t : Tree) :
    (∃ e, lowerReflected o drop t = .err e) ∨
      (Shaped .reflected (lowerReflected o drop t) ∧ (lowerReflected o drop t).errors = [] ∧
        ∀ m, .enter m ∈ (lowerReflected o drop t).visits → ∀ c ∈ m.children,
          ∀ role, Role.only? c.kind = some role → m.kind ∈ role.hosts) := by
  unfold lowerReflected
  cases h : lowerFunction o .declaration drop t with
  | error f =>
    left
    cases f with
    | refused e => exact ⟨e.toErrorValue, rfl⟩
    | fault message => exact ⟨_, rfl⟩
  | ok n =>
    right
    obtain ⟨info, children⟩ := t
    obtain ⟨names, b, hfunction, rfl⟩ := assemble_function_iff.mp h
    have hbody : Shaped .block b := hfunction.body.shaped fun c _ => lowersShaped o c
    have hshaped : Shaped .reflected
        (.functionDecl ((names.drop drop).map .parameterDecl) b) := by
      refine .inner rfl rfl rfl fun p hp => ?_
      rcases List.mem_append.mp hp with hp | hp
      · obtain ⟨m, hm, rfl⟩ := List.mem_map.mp hp
        obtain ⟨name, -, rfl⟩ := List.mem_map.mp hm
        exact Shaped.parameterDecl name
      · obtain rfl := List.mem_singleton.mp hp
        exact hbody
    refine ⟨hshaped, hshaped.errors_eq_nil, fun m hm c hc role hrole => ?_⟩
    obtain ⟨inner, hinner⟩ := hshaped.exists_role_of_enter hm
    exact hinner.kind_mem_hosts hc hrole

end Reify
