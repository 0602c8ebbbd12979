import GradualScript.Call
import GradualScript.Cursor.Skip
import GradualScript.Value.Literal
import GradualScript.Walk.Basic

/-!
# Reading and evaluating expressions

An expression is read element by element. Names, calls, assignments, ternaries and lambdas are evaluated on the
way, so that values, operators and parentheses are left; `Expression.calculate` does the rest.

* `WalkM.arguments`, `WalkM.functionCall`, `WalkM.constructorCall` : calls;
* `WalkM.ternary`, `WalkM.assignment` : the forms that evaluate expressions of their own;
* `WalkM.element`, `WalkM.elements` : one element, and all of an expression;
* `WalkM.expression`, `WalkM.evaluation` : an expression, and its value.

What evaluates expressions inside an expression takes the reader of these as the parameter `inner`, and `steps`
bounds the loops in it.
-/

set_option autoImplicit false

namespace GradualScript.WalkM

open CursorM (advance currentKind expect expectKeyword)

/-- The token at the cursor, which is left there. -/
def current : WalkM Token := fun walk => .ok walk.cursor.current walk

/-- The line at the cursor. -/
def currentLine : WalkM Nat := fun walk => .ok walk.cursor.line walk

/-- The value of an expression that is read by `inner`. -/
def valueOf (inner : WalkM Expression) : WalkM Item := do
  calculate (← inner)

/-! ## Calls -/

/-- One or more arguments with commas between them, and the closing parenthesis. -/
def argumentList (inner : WalkM Expression) : Nat → WalkM (List Item)
  | 0 => outOfSteps
  | steps + 1 => do
    let item ← valueOf inner
    match ← currentKind with
    | .comma => do
      let _ ← advance
      return item :: (← argumentList inner steps)
    | .closing .round => do
      let _ ← advance
      return [item]
    | _ => CursorM.unexpectedCurrent

/-- The arguments of a call in parentheses. -/
def arguments (inner : WalkM Expression) (steps : Nat) : WalkM (List Item) := do
  let _ ← expect (.opening .round)
  if (← currentKind) = .closing .round then
    let _ ← advance
    return []
  else
    argumentList inner steps

/-- Calls a function of the host. Unit is no result. -/
def hostCall (function : HostFunction) (arguments : List Item) (line : Nat) : WalkM CallResult :=
  match function arguments with
  | .ok .unit => return .void
  | .ok item => return .value item
  | .error kind => fail (kind.at line)

/-- A name and its arguments, where the name is a function of the host or is bound to a function. -/
def functionCall (executor : Executor) (inner : WalkM Expression) (steps : Nat) : WalkM CallResult := do
  let line ← currentLine
  let name := (← advance).text
  let items ← arguments inner steps
  let context := (← get).context
  match context.registry.function? name with
  | some function => hostCall function items line
  | none =>
    match (context.scopes.lookup? name).map Binding.item with
    | some (.function function) => ofContext (function.invoke executor items)
    | _ => fail ⟨.notCallable name, line⟩

/-- A name and its arguments, where the name is a class. -/
def constructorCall (inner : WalkM Expression) (steps : Nat) : WalkM Item := do
  let line ← currentLine
  let name := (← advance).text
  let items ← arguments inner steps
  match (← get).context.registry.constructor? name with
  | some constructor =>
    match constructor items with
    | .ok item => return item
    | .error kind => fail (kind.at line)
  | none => fail ⟨.notCallable name, line⟩

/-- A token with its arguments: a call if the token is the name of something that can be called. -/
def callSite (executor : Executor) (inner : WalkM Expression) (steps : Nat) : WalkM Item := do
  let token ← current
  let context := (← get).context
  match if token.kind = .name then context.nameKind token.text else NameKind.undeclared with
  | .function => return (← functionCall executor inner steps).item
  | .constructor => constructorCall inner steps
  | .value | .undeclared => failHere (.notCallable token.text)

/-! ## Ternaries, assignments and names -/

/-- `if (condition) value else value`. The branch that is not chosen is skipped. -/
def ternary (inner : WalkM Expression) : WalkM Item := do
  let line ← currentLine
  let _ ← expectKeyword "if"
  let _ ← expect (.opening .round)
  let condition ← valueOf inner
  let _ ← expect (.closing .round)
  match condition with
  | .bool true => do
    let item ← valueOf inner
    let _ ← expectKeyword "else"
    CursorM.skipExpression
    return item
  | .bool false => do
    CursorM.skipExpression
    let _ ← expectKeyword "else"
    valueOf inner
  | other => fail ⟨.typeMismatch TypeTag.bool.name other.tag.name, line⟩

/-- `name = value`, which has the value that it stores. -/
def assignment (inner : WalkM Expression) : WalkM Item := do
  let line ← currentLine
  let name := (← advance).text
  let _ ← expect .assignment
  match (← get).context.scopes.lookup? name with
  | none => fail ⟨.undefinedName name, line⟩
  | some binding =>
    if binding.isMutable then
      let item ← valueOf inner
      ofContext (ContextM.assign name item)
      return item
    else
      fail ⟨.constantAssignment name, line⟩

/-- A name that is not called: an assignment to it, or its value. -/
def nameValue (inner : WalkM Expression) : WalkM Item := do
  let walk ← get
  let name := walk.cursor.current.text
  if walk.context.nameKind name = .undeclared then failHere (.undefinedName name)
  else if walk.cursor.peek.kind = .assignment then assignment inner
  else
    match walk.context.scopes.lookup? name with
    | some binding => do
      let _ ← advance
      return binding.item
    | none => failHere (.notCallable name)

/-- The value of `this`. -/
def thisValue : WalkM Item := do
  match (← get).context.scopes.lookup? "this" with
  | some binding => do
    let _ ← advance
    return binding.item
  | none => failHere (.undefinedName "this")

/-! ## Expressions -/

/-- A parenthesis, an operator or a literal. -/
def plainElement (token : Token) : WalkM Element :=
  match token.kind with
  | .opening .round => return .openParen
  | .closing .round => return .closeParen
  | .operator =>
    match Operator.ofSymbol? token.text with
    | some op => return .operator op
    | none => CursorM.unexpected token
  | kind =>
    if kind.isLiteral then
      match Item.ofLiteral token with
      | .ok item => return .value item
      | .error error => failHere error
    else CursorM.unexpected token

/-- The element at the cursor. -/
def element (executor : Executor) (inner : WalkM Expression) (steps : Nat) : WalkM Element := do
  let cursor := (← get).cursor
  let token := cursor.current
  if token.kind.isObject && cursor.peekRaw.kind = .opening .round then
    return .value (← callSite executor inner steps)
  else if token.kind.isObject && cursor.peek.kind = .opening .square then
    failHere (.unsupported "Indexing")
  else if token.kind = .opening .square then
    failHere (.unsupported "Array literals")
  else if token.isKeywordOf "if" then
    return .value (← ternary inner)
  else if token.isKeywordOf "lambda" then
    return .value (.function (← CursorM.lambda))
  else if token.kind.isObject && cursor.peek.kind = .dot then
    failHere (.unsupported "Member access")
  else if token.kind = .name then
    return .value (← nameValue inner)
  else if token.isKeywordOf "this" then
    return .value (← thisValue)
  else
    let element ← plainElement token
    let _ ← advance
    return element

/-- An expression that starts at the first token which is no line break, given how to read elements from an index
on. -/
def expressionBy (elementsFrom : Nat → WalkM (List Element)) : WalkM Expression := do
  CursorM.skipLineBreaks
  let start := (← get).cursor
  return ⟨← elementsFrom start.position, start.line⟩

/-- The rest of an expression that began at index `first`, when the brackets `waiting` are open. -/
def elements (executor : Executor) : Nat → Nat → List TokenKind → WalkM (List Element)
  | 0, _, _ => outOfSteps
  | steps + 1, first, waiting => do
    let cursor := (← get).cursor
    match cursor.boundary first waiting.isEmpty with
    | .ends => return []
    | .clash => CursorM.unexpectedCurrent
    | .inside =>
      let element ← element executor (expressionBy (elements executor steps · [])) steps
      return element :: (← elements executor steps first (Cursor.track waiting cursor.current.kind))

/-- An expression, in at most `steps` steps. -/
def expressionWithin (executor : Executor) (steps : Nat) : WalkM Expression :=
  expressionBy (elements executor steps · [])

/-- Reads an expression and stops at the token that ended it. -/
def expression (executor : Executor) : WalkM Expression :=
  bounded (expressionWithin executor)

/-- Reads an expression and gives its value. -/
def evaluation (executor : Executor) : WalkM Item :=
  valueOf (expression executor)

end GradualScript.WalkM
