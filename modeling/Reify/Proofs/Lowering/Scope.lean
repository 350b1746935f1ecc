/-
Names in a function: which are bound where, and which an access mentions.

`Tree.binds t` is what `t` binds around everything that lowering reads below it: a function
binds its parameters, its own name and its `var` declarations, a block what is declared in it,
a loop or a catch clause its variable.  The names an access mentions are its head, from which
its type is computed, and those of its operands, such as an index or an argument; a name may be
both (`mem_identifiers_iff`).
-/
import Reify.Proofs.Lowering.Form

namespace Reify
namespace Tree

/-! ## Binding -/

def declaratorNames (t : Tree) : List String :=
  (t.children.filter Lowering.isDeclarator).filterMap fun d => (d.childByField? "name").map text

/-- The `var` names that a node itself declares. -/
def varNames (t : Tree) : List String :=
  match t.kind with
  | .variableDeclaration => t.declaratorNames
  | .forInStatement => if t.hasToken "var" then (t.childByField? "left").toList.map text else []
  | _ => []

mutual

/-- The `var` names declared in a tree, functions inside it left out. -/
def hoisted : Tree → List String
  | .node info children =>
    if isFunctionLike (.node info children) then []
    else varNames (.node info children) ++ hoistedIn children

def hoistedIn : List Tree → List String
  | [] => []
  | t :: ts => hoisted t ++ hoistedIn ts

end

/-- The name by which a statement of a block is known in the whole block. -/
def statementNames (t : Tree) : List String :=
  match t.kind with
  | .lexicalDeclaration => t.declaratorNames
  | .functionDeclaration => (t.childByField? "name").toList.map text
  | _ => []

/-- The names that a function binds in its body. -/
def functionNames (t : Tree) : List String :=
  (if t.kind = .functionExpression then (t.childByField? "name").toList.map text else []) ++
    (Function.parameterNames t).toOption.getD [] ++
    (t.childByField? "body").toList.flatMap hoisted

/-- The names that a node binds around what lowering reads below it. -/
def binds (t : Tree) : List String :=
  match t.kind with
  | .arrowFunction | .functionExpression | .functionDeclaration => t.functionNames
  | .statementBlock => t.namedChildren.flatMap statementNames
  | .forInStatement =>
    if t.hasToken "let" || t.hasToken "const" then (t.childByField? "left").toList.map text else []
  | .catchClause => (t.childByField? "parameter").toList.map text
  | _ => []

/-! ## Mention -/

mutual

def identifiers : Tree → List String
  | .node info children =>
    (if info.kind.isName then [info.text] else []) ++ identifiersIn children

def identifiersIn : List Tree → List String
  | [] => []
  | t :: ts => identifiers t ++ identifiersIn ts

end

theorem identifiersIn_eq (ts : List Tree) : identifiersIn ts = ts.flatMap identifiers := by
  induction ts with
  | nil => rfl
  | cons t ts ih => rw [identifiersIn, ih, List.flatMap_cons]

theorem mem_identifiers {t : Tree} {x : String} :
    x ∈ t.identifiers ↔
      (t.kind.isName = true ∧ x = t.text) ∨ ∃ c ∈ t.children, x ∈ c.identifiers := by
  obtain ⟨info, children⟩ := t
  rw [identifiers, identifiersIn_eq, List.mem_append, List.mem_flatMap]
  refine or_congr ?_ Iff.rfl
  by_cases hname : info.kind.isName = true
  · simp [kind, text, Tree.info, hname]
  · simp [kind, Tree.info, hname]

/-- The part of an expression that its type is computed from. -/
def headChild? (t : Tree) : Option Tree :=
  match t.kind with
  | .memberExpression | .subscriptExpression => t.childByField? "object"
  | .callExpression => t.childByField? "function"
  | .newExpression => t.childByField? "constructor"
  | .parenthesizedExpression | .asExpression | .satisfiesExpression | .nonNullExpression =>
    t.firstNamedChild?
  | .typeAssertion => t.lastNamedChild?
  | _ => none

theorem mem_of_headChild? {t c : Tree} (h : t.headChild? = some c) : c ∈ t.children := by
  unfold headChild? at h
  split at h
  case h_9 => exact mem_of_lastNamedChild? h
  case h_10 => cases h
  all_goals first | exact mem_of_childByField? h | exact mem_of_firstNamedChild? h

/-- An expression begins with the name `x`. -/
inductive Head (x : String) : Tree → Prop
  | name {t : Tree} (kind : t.kind.isName = true) (text : x = t.text) : Head x t
  | step {t c : Tree} (child : t.headChild? = some c) (head : Head x c) : Head x t

/-- An operand of an expression mentions the name `x`. -/
inductive Operand (x : String) : Tree → Prop
  | beside {t c : Tree} (child : c ∈ t.children) (other : t.headChild? ≠ some c)
      (mention : x ∈ c.identifiers) : Operand x t
  | step {t c : Tree} (child : t.headChild? = some c) (operand : Operand x c) : Operand x t

theorem mem_identifiers_iff {t : Tree} {x : String} :
    x ∈ t.identifiers ↔ Head x t ∨ Operand x t := by
  constructor
  · intro h
    induction t using induct with
    | node info children ih =>
      rcases mem_identifiers.mp h with ⟨hname, htext⟩ | ⟨c, hc, hx⟩
      · exact .inl (.name hname htext)
      · by_cases hhead : headChild? (.node info children) = some c
        · rcases ih c hc hx with hx | hx
          · exact .inl (.step hhead hx)
          · exact .inr (.step hhead hx)
        · exact .inr (.beside hc hhead hx)
  · rintro (h | h)
    · induction h with
      | name hname htext => exact mem_identifiers.mpr (.inl ⟨hname, htext⟩)
      | step child _ ih => exact mem_identifiers.mpr (.inr ⟨_, mem_of_headChild? child, ih⟩)
    · induction h with
      | beside child _ mention => exact mem_identifiers.mpr (.inr ⟨_, child, mention⟩)
      | step child _ ih => exact mem_identifiers.mpr (.inr ⟨_, mem_of_headChild? child, ih⟩)

end Tree
end Reify
