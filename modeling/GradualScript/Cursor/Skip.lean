import GradualScript.Cursor.Lambda

/-!
# Skipping expressions

* `CursorM.skipGroup` : moves past a group in parentheses;
* `CursorM.skipExpression` : moves past an expression without looking up names or evaluating anything.
-/

set_option autoImplicit false

namespace GradualScript.CursorM

/-- Moves past the rest of a group that began with `start`, when `depth + 1` parentheses are open. -/
def skipGroupRest (start : Token) : Nat → Nat → CursorM Unit
  | 0, _ => outOfSteps
  | steps + 1, depth => do
    match ← currentKind, depth with
    | .eof, _ => unexpected start
    | .opening .round, depth => do
      let _ ← advance
      skipGroupRest start steps (depth + 1)
    | .closing .round, 0 => do
      let _ ← advance
    | .closing .round, depth + 1 => do
      let _ ← advance
      skipGroupRest start steps depth
    | _, depth => do
      let _ ← advance
      skipGroupRest start steps depth

/-- Moves past a group in parentheses. -/
def skipGroup : CursorM Unit := do
  let start ← expect (.opening .round)
  bounded (skipGroupRest start · 0)

/-- Moves past a ternary, given how to move past an expression. -/
def skipTernary (expression : CursorM Unit) : CursorM Unit := do
  let _ ← expectKeyword "if"
  skipGroup
  expression
  let _ ← expectKeyword "else"
  expression

/-- Moves past the rest of an expression that began at index `first`, when the brackets `waiting` are open. -/
def skipRest : Nat → Nat → List TokenKind → CursorM Unit
  | 0, _, _ => outOfSteps
  | steps + 1, first, waiting => do
    let cursor ← get
    match cursor.boundary first waiting.isEmpty with
    | .ends => return ()
    | .clash => unexpectedCurrent
    | .inside =>
      if cursor.current.kind.isObject && cursor.peekRaw.kind = .opening .round then
        let _ ← advance
        skipGroup
        skipRest steps first waiting
      else if cursor.current.isKeywordOf "if" then
        skipTernary do
          skipLineBreaks
          skipRest steps (← get).position []
        skipRest steps first waiting
      else if cursor.current.isKeywordOf "lambda" then
        let _ ← lambda
        skipRest steps first waiting
      else
        let _ ← advance
        skipRest steps first (Cursor.track waiting cursor.current.kind)

/-- Moves past an expression. It ends where reading it would end. -/
def skipExpression : CursorM Unit := do
  skipLineBreaks
  let first := (← get).position
  bounded (skipRest · first [])

end GradualScript.CursorM
