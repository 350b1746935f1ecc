/-
Lowering: from the syntax tree of a function to its reflected form.

What a tree lowers to depends on the position it stands in.  Expressions and statements have
functions of their own; the other positions wrap one of them, or read a particular kind of
node.  `lowerChildren` gives the outcomes of those children that a position of the parent asks
for, and the parent puts them together in the order in which they are reported when they fail.
-/
import Reify.Lowering.Arguments
import Reify.Lowering.Function
import Reify.Lowering.Reference
import Reify.Lowering.Template
import Reify.Operator

namespace Reify

inductive Position
  | value
  /-- An array element or an argument, which may be spread. -/
  | element
  /-- A member of an object literal. -/
  | property
  | propertyName
  /-- The hole of a template. -/
  | substitution
  | functionBody
  | block
  /-- A loop body, which is a block whatever it is written as. -/
  | loopBody
  /-- A branch, which holds exactly one statement. -/
  | branch
  | elseClause
  | declarator
  | catchClause
  | finallyClause
  deriving DecidableEq, Repr

namespace Lowering

def requiredField (t : Tree) (name : String) : Lowering Tree :=
  match t.childByField? name with
  | some c => .ok c
  | none => .error (.unsupported t.info)

/-- Whether an access or call is cut short at a nullish object. -/
def isOptionalChain (t : Tree) : Bool :=
  (t.childByField? "optional_chain").isSome || t.hasToken "?." ||
    t.children.any (·.kind == .optionalChain)

def rejectOptionalChain (t : Tree) : Lowering Unit :=
  if isOptionalChain t then .error (.unsupportedAs t.info "optional chain") else .ok ()

def rejectTaggedTemplate (t : Tree) : Lowering Unit :=
  match t.childByField? "arguments" with
  | some list =>
    if list.kind = .arguments then .ok () else .error (.unsupportedAs t.info "tagged template")
  | none => .error (.unsupportedAs t.info "tagged template")

def isSubstitution (t : Tree) : Bool := t.kind == .templateSubstitution

def isDeclarator (t : Tree) : Bool := t.isOperand && t.kind == .variableDeclarator

/-- The one node that a statement lowers to, or a block of those it lowers to. -/
def single : List Node → Node
  | [n] => n
  | ns => .blockStmt ns

/-- The variable that a loop assigns: a new one if the loop declares it. -/
def loopVariable (t : Tree) (name : String) : Node :=
  if t.hasToken "const" || t.hasToken "let" || t.hasToken "var" then .variableStmt name none
  else .identifier name

def catchVariable (clause : Tree) : Lowering (Option Node) :=
  match clause.childByField? "parameter" with
  | none => .ok none
  | some parameter =>
    if parameter.kind = .identifier then .ok (some (.variableStmt parameter.text none))
    else .error (.unsupportedAs parameter.info "catch destructuring")

def plainPropertyName (i : Tree.Info) : Lowering Node :=
  match i.kind with
  | .propertyIdentifier => .ok (.identifier i.text)
  | .stringLiteral => .ok (.stringLiteralExpr i.text)
  | .numberLiteral => .ok (.numberLiteralExpr i.text)
  | _ => .error (.unsupported i)

end Lowering

open Lowering

mutual

def lowerExpr (o : Oracle) : Tree → Lowering Node
  | .node info children =>
    let t := Tree.node info children
    let value := fun name =>
      required info (lowerChildren o .value (Tree.inField name) children).head?
    match info.kind with
    | .identifier | .shorthandPropertyIdentifier =>
      if info.text = "undefined" then .ok .undefinedLiteralExpr
      else .ok ((o.resolveReference? t).getD (.identifier info.text))
    | .undefinedLiteral => .ok .undefinedLiteralExpr
    | .nullLiteral => .ok .nullLiteralExpr
    | .trueLiteral => .ok (.booleanLiteralExpr true)
    | .falseLiteral => .ok (.booleanLiteralExpr false)
    | .numberLiteral => .ok (.numberLiteralExpr info.text)
    | .stringLiteral => .ok (.stringLiteralExpr info.text)
    | .templateString =>
      Template.assemble info
        (((children.filter isSubstitution).map Tree.span).zip
          (lowerChildren o .substitution isSubstitution children))
    | .parenthesizedExpression | .asExpression | .satisfiesExpression | .nonNullExpression =>
      required info (lowerChildren o .value Tree.isOperand children).head?
    | .typeAssertion => required info (lowerChildren o .value Tree.isOperand children).getLast?
    | .memberExpression => do
      rejectOptionalChain t
      match o.resolveReference? t with
      | some reference => return reference
      | none =>
        let object ← value "object"
        let property ← requiredField t "property"
        return .propAccessExpr object property.text (o.typeSnapshot? t)
    | .subscriptExpression => do
      rejectOptionalChain t
      match o.resolveReference? t with
      | some reference => return reference
      | none =>
        let object ← value "object"
        let index ← value "index"
        return .elementAccessExpr object index (o.typeSnapshot? t)
    | .callExpression => do
      rejectOptionalChain t
      rejectTaggedTemplate t
      let callee ← value "function"
      let args ← Arguments.assemble o t (lowerArguments o children)
      return .callExpr callee args
    | .newExpression => do
      let args ←
        if (t.childByField? "arguments").isSome then
          Arguments.assemble o t (lowerArguments o children)
        else .ok []
      let callee ← value "constructor"
      return .newExpr callee args
    | .binaryExpression => do
      let token ← requiredField t "operator"
      match Operator.binary? token.text with
      | none => .error (.operator info token.text)
      | some symbol =>
        let left ← value "left"
        let right ← value "right"
        return .binaryExpr left symbol right
    | .assignmentExpression => do
      let left ← value "left"
      let right ← value "right"
      return .binaryExpr left "=" right
    | .augmentedAssignmentExpression | .updateExpression => do
      let token ← requiredField t "operator"
      .error (.operator info token.text)
    | .unaryExpression => do
      let token ← requiredField t "operator"
      let _ ← requiredField t "argument"
      if token.text = "typeof" then return .typeOfExpr (← value "argument")
      else
        match Operator.unary? token.text with
        | none => .error (.operator info token.text)
        | some symbol => return .unaryExpr symbol (← value "argument")
    | .ternaryExpression => do
      let condition ← value "condition"
      let thenValue ← value "consequence"
      let elseValue ← value "alternative"
      return .conditionExpr condition thenValue elseValue
    | .array => do
      return .arrayLiteralExpr (← gather (lowerChildren o .element Tree.isOperand children))
    | .object => do
      return .objectLiteralExpr (← gather (lowerChildren o .property Tree.isOperand children))
    | .arrowFunction | .functionExpression | .generatorFunction =>
      Function.assemble .expression 0 t
        (lowerChildren o .functionBody (Tree.inField "body") children).head?
    | _ => .error (.unsupported info)

/-- What a tree lowers to as a statement: one node for each variable it declares, none if it
is empty, and otherwise one. -/
def lowerStatement (o : Oracle) : Tree → Lowering (List Node)
  | .node info children =>
    let t := Tree.node info children
    let field? := fun pos name => (lowerChildren o pos (Tree.inField name) children).head?
    let value := fun name => required info (field? .value name)
    let operand? := fun _ : Unit => (lowerChildren o .value Tree.isOperand children).head?
    match info.kind with
    | .expressionStatement => do return [.exprStmt (← required info (operand? ()))]
    | .statementBlock => do return [.blockStmt (← lowerStatements o children)]
    | .lexicalDeclaration | .variableDeclaration =>
      gather (lowerChildren o .declarator isDeclarator children)
    | .emptyStatement => .ok []
    | .returnStatement => do
      let expr ← optional (operand? ())
      return [.returnStmt (expr.getD .undefinedLiteralExpr)]
    | .ifStatement => do
      let condition ← value "condition"
      let thenBranch ← required info (field? .branch "consequence")
      let elseBranch ← optional (field? .elseClause "alternative")
      return [.ifStmt condition thenBranch elseBranch]
    | .whileStatement => do
      let condition ← value "condition"
      let block ← required info (field? .loopBody "body")
      return [.whileStmt condition block]
    | .doStatement => do
      let block ← required info (field? .loopBody "body")
      let condition ← value "condition"
      return [.doStmt block condition]
    | .forInStatement =>
      if t.hasToken "await" then .error (.unsupportedAs info "for await loop")
      else do
        let left ← requiredField t "left"
        if left.kind = .identifier then
          let expr ← value "right"
          let body ← required info (field? .loopBody "body")
          let target := loopVariable t left.text
          if t.hasToken "of" then return [.forOfStmt target expr body]
          else return [.forInStmt target expr body]
        else .error (.unsupportedAs left.info "loop destructuring")
    | .breakStatement =>
      if t.firstNamedChild?.isSome then .error (.unsupportedAs info "labeled jump")
      else .ok [.breakStmt]
    | .continueStatement =>
      if t.firstNamedChild?.isSome then .error (.unsupportedAs info "labeled jump")
      else .ok [.continueStmt]
    | .tryStatement => do
      let tryBlock ← required info (field? .block "body")
      let handler ← optional (field? .catchClause "handler")
      let finalizer ← optional (field? .finallyClause "finalizer")
      return [.tryStmt tryBlock handler finalizer]
    | .throwStatement => do return [.throwStmt (← required info (operand? ()))]
    | .functionDeclaration => do
      let name ← requiredField t "name"
      let function ← Function.assemble .expression 0 t (field? .functionBody "body")
      return [.variableStmt name.text (some function)]
    | .functionSignature => .error (.declarationOnly info)
    | _ => .error (.unsupported info)

def lowerStatements (o : Oracle) : List Tree → Lowering (List Node)
  | [] => .ok []
  | t :: ts =>
    if t.isOperand then do return (← lowerStatement o t) ++ (← lowerStatements o ts)
    else lowerStatements o ts

def lowerChildren (o : Oracle) (pos : Position) (p : Tree → Bool) :
    List Tree → List (Lowering Node)
  | [] => []
  | .node info children :: ts =>
    let t := Tree.node info children
    let field? := fun pos name => (lowerChildren o pos (Tree.inField name) children).head?
    let operand := fun pos =>
      required info (lowerChildren o pos Tree.isOperand children).head?
    if p t then
      let outcome : Lowering Node :=
        match pos with
        | .value => lowerExpr o (.node info children)
        | .element =>
          if info.kind = .spreadElement then do return .spreadElementExpr (← operand .value)
          else lowerExpr o (.node info children)
        | .property =>
          match info.kind with
          | .pair => do
            let name ← required info (field? .propertyName "key")
            let expr ← required info (field? .value "value")
            return .propAssignExpr name expr
          | .shorthandPropertyIdentifier => do
            return .propAssignExpr (.identifier info.text) (← lowerExpr o (.node info children))
          | .spreadElement => do return .spreadAssignExpr (← operand .value)
          | .methodDefinition => .error (.unsupportedAs info "method shorthand")
          | _ => .error (.unsupported info)
        | .propertyName =>
          if info.kind = .computedPropertyName then do
            return .computedPropertyNameExpr (← operand .value)
          else plainPropertyName info
        | .substitution => operand .value
        | .functionBody =>
          if info.kind = .statementBlock then do
            return .blockStmt (← lowerStatements o children)
          else do return .blockStmt [.returnStmt (← lowerExpr o (.node info children))]
        | .block => do return .blockStmt (← lowerStatements o children)
        | .loopBody =>
          if info.kind = .statementBlock then do
            return .blockStmt (← lowerStatements o children)
          else do return .blockStmt (← lowerStatement o (.node info children))
        | .branch => do return single (← lowerStatement o (.node info children))
        | .elseClause => operand .branch
        | .declarator => do
          let name ← requiredField t "name"
          if name.kind = .identifier then
            return .variableStmt name.text (← optional (field? .value "value"))
          else .error (.unsupportedAs name.info "destructuring declaration")
        | .catchClause => do
          let target ← catchVariable t
          let block ← required info (field? .block "body")
          return .catchClause target block
        | .finallyClause => required info (field? .block "body")
      outcome :: lowerChildren o pos p ts
    else lowerChildren o pos p ts

def lowerArguments (o : Oracle) : List Tree → List (Lowering Node)
  | [] => []
  | .node info children :: ts =>
    if Tree.inField "arguments" (.node info children) then
      if info.kind = .arguments then lowerChildren o .element Tree.isOperand children else []
    else lowerArguments o ts

end

theorem lowerStatements_eq (o : Oracle) (ts : List Tree) :
    lowerStatements o ts =
      (gather ((ts.filter Tree.isOperand).map (lowerStatement o))).map List.flatten := by
  induction ts with
  | nil => rfl
  | cons t ts ih =>
    rw [lowerStatements, ih, List.filter_cons]
    split
    · rw [List.map_cons, gather]
      cases lowerStatement o t with
      | error f => rfl
      | ok ns => cases gather ((ts.filter Tree.isOperand).map (lowerStatement o)) <;> rfl
    · rfl

def lowerAt (o : Oracle) (pos : Position) (t : Tree) : Lowering Node :=
  required t.info (lowerChildren o pos (fun _ => true) [t]).head?

theorem lowerChildren_cons (o : Oracle) (pos : Position) (p : Tree → Bool) (t : Tree)
    (ts : List Tree) :
    lowerChildren o pos p (t :: ts) =
      if p t then lowerAt o pos t :: lowerChildren o pos p ts else lowerChildren o pos p ts := by
  obtain ⟨info, children⟩ := t
  cases pos <;> simp only [lowerAt, lowerChildren, if_pos, List.head?_cons, required]

theorem lowerChildren_eq (o : Oracle) (pos : Position) (p : Tree → Bool) (ts : List Tree) :
    lowerChildren o pos p ts = (ts.filter p).map (lowerAt o pos) := by
  induction ts with
  | nil => rfl
  | cons t ts ih =>
    rw [lowerChildren_cons, ih, List.filter_cons]
    split <;> rfl

def lowerElement (o : Oracle) (t : Tree) : Lowering Node := lowerAt o .element t

theorem lowerArguments_eq (o : Oracle) {t : Tree} (h : t.isInvocation = true) :
    lowerArguments o t.children = t.callArguments.map (lowerElement o) := by
  have found (ts : List Tree) : lowerArguments o ts =
      match ts.find? (Tree.inField "arguments") with
      | some list => if list.kind = .arguments then list.namedChildren.map (lowerElement o) else []
      | none => [] := by
    induction ts with
    | nil => rfl
    | cons t ts ih =>
      obtain ⟨info, children⟩ := t
      rw [lowerArguments, ih, List.find?_cons, lowerChildren_eq]
      cases Tree.inField "arguments" (.node info children) <;> rfl
  rw [found, Tree.callArguments, Tree.argumentList?, if_pos h, Tree.childByField?]
  cases t.children.find? (Tree.inField "arguments") with
  | none => rfl
  | some list => by_cases hl : list.kind = .arguments <;> simp [hl]

def lowerBlock (o : Oracle) (t : Tree) : Lowering Node := lowerAt o .block t

def lowerFunction (o : Oracle) (flavor : FunctionFlavor) (drop : Nat) (t : Tree) :
    Lowering Node :=
  Function.assemble flavor drop t
    (lowerChildren o .functionBody (Tree.inField "body") t.children).head?

def bindArguments (o : Oracle) (t : Tree) : Lowering (List Node) :=
  Arguments.assemble o t (t.callArguments.map (lowerElement o))

/-- The reflected form of the function in a slot, or the error that stands for its failure. -/
def lowerReflected (o : Oracle) (drop : Nat) (t : Tree) : Node :=
  contain (lowerFunction o .declaration drop t)

end Reify
