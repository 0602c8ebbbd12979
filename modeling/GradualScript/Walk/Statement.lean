import GradualScript.Walk.Expression

/-!
# Statements

* `WalkM.declaration` : `let name [: Type] = value` and `const name [: Type] = value`;
* `WalkM.statement` : a declaration, `return [value]`, `{ … }` or an expression;
* `WalkM.statements` : statements with line breaks or semicolons between them.
-/

set_option autoImplicit false

namespace GradualScript.WalkM

open CursorM (advance currentKind expect)

/-- The types that a declaration allows: those of the name behind its colon, if it has one. -/
def declaredTypes : WalkM TypeSet := do
  if (← currentKind) = .colon then
    let _ ← advance
    return .ofDeclared (.ofName (← expect .name).text)
  else
    return .any

/-- A declaration. An error in its type or name is reported at the line of its name. -/
def declaration (executor : Executor) : WalkM Outcome := do
  let isMutable := (← advance).isKeywordOf "let"
  let line ← currentLine
  let name := (← expect .name).text
  let types ← declaredTypes
  let _ ← expect .assignment
  let item ← evaluation executor
  if types.accepts item.tag then
    ofContext (ContextM.declare { name, isMutable, types, item } line)
    return .completed .unit
  else
    fail ⟨.typeMismatch types.name item.tag.name, line⟩

/-- A `return`. It returns unit if the statement ends right behind it. -/
def returnStatement (executor : Executor) : WalkM Outcome := do
  let _ ← advance
  let kind ← currentKind
  if kind.isTerminator || kind = .closing .curly then return .returned .unit
  else return .returned (← evaluation executor)

/-- A block in braces with a scope of its own, given how to run the statements in it. -/
def nestedBlock (statements : WalkM Outcome) : WalkM Outcome := do
  let _ ← advance
  match ← inScope statements with
  | .completed item => do
    let _ ← expect (.closing .curly)
    return .completed item
  | .returned item => return .returned item

/-- One statement, given how to run the statements of a block inside it. -/
def statement (executor : Executor) (nested : WalkM Outcome) : WalkM Outcome := do
  let token ← current
  if token.isKeywordOf "let" || token.isKeywordOf "const" then declaration executor
  else if token.isKeywordOf "return" then returnStatement executor
  else if token.kind = .opening .curly then nestedBlock nested
  else return .completed (← evaluation executor)

/-- What stands behind a statement has to end it. -/
def statementEnd : WalkM Unit := do
  let cursor := (← get).cursor
  if cursor.current.kind.isTerminator || cursor.current.kind = .closing .curly || cursor.followsBreak then
    return ()
  else
    CursorM.unexpectedCurrent

/-- Statements up to a token of kind `stop`, when the last one had the value `last`. -/
def statementsFrom (executor : Executor) : Nat → TokenKind → Item → WalkM Outcome
  | 0, _, _ => outOfSteps
  | steps + 1, stop, last => do
    CursorM.skipStatementBreaks
    let kind ← currentKind
    if kind = stop then return .completed last
    else if kind = .eof then failHere (.unexpectedToken "EOF")
    else
      match ← statement executor (statementsFrom executor steps (.closing .curly) .unit) with
      | .returned item => return .returned item
      | .completed item => do
        statementEnd
        statementsFrom executor steps stop item

/-- The statements of a program or of a function body. -/
def statements (executor : Executor) : WalkM Outcome :=
  bounded (statementsFrom executor · .eof .unit)

end GradualScript.WalkM
