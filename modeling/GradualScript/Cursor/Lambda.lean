import GradualScript.Cursor.Reading
import GradualScript.Value.Item

/-!
# Lambdas

* `CursorM.parameters`, `CursorM.returnTypes` : the head of a lambda;
* `Token.curlyBody?` : the tokens up to the closing brace;
* `CursorM.lambda` : `lambda (name [: Type], …) [-> Type | -> (Type, …)] { body }`.
-/

set_option autoImplicit false

namespace GradualScript

/-- The tokens before the brace that closes a block whose opening brace has been read, when `depth` more blocks
are open inside it. -/
def Token.curlyBody? : Nat → List Token → Option (List Token)
  | _, [] => none
  | depth, token :: rest =>
    match token.kind, depth with
    | .opening .curly, depth => (curlyBody? (depth + 1) rest).map (token :: ·)
    | .closing .curly, 0 => some []
    | .closing .curly, depth + 1 => (curlyBody? depth rest).map (token :: ·)
    | _, depth => (curlyBody? depth rest).map (token :: ·)

namespace CursorM

/-- A colon and the name of a type, or nothing. -/
def declaredType : CursorM DeclaredType := do
  if (← currentKind) = .colon then
    let _ ← advance
    return .ofName (← expect .name).text
  else
    return .any

/-- Parameters with commas between them, up to a closing parenthesis. A comma may stand behind the last one. -/
def parameters : Nat → CursorM (List Parameter)
  | 0 => outOfSteps
  | steps + 1 => do
    if (← currentKind) = .closing .round then return []
    else
      let name := (← expect .name).text
      let type ← declaredType
      match ← currentKind with
      | .comma => do
        let _ ← advance
        return ⟨name, type⟩ :: (← parameters steps)
      | .closing .round => return ⟨name, type⟩ :: (← parameters steps)
      | _ => unexpectedCurrent

/-- One or more names of types with commas between them, up to a closing parenthesis. -/
def typeNames : Nat → TypeSet → CursorM TypeSet
  | 0, _ => outOfSteps
  | steps + 1, types => do
    let types := types.declare (.ofName (← expect .name).text)
    match ← currentKind with
    | .comma => do
      let _ ← advance
      typeNames steps types
    | .closing .round => return types
    | _ => unexpectedCurrent

/-- An arrow with the type or the types behind it, or nothing. -/
def returnTypes : CursorM TypeSet := do
  if (← currentKind) = .arrow then
    let _ ← advance
    if (← currentKind) = .opening .round then
      let _ ← advance
      let types ← bounded (typeNames · .any)
      let _ ← expect (.closing .round)
      return types
    else
      return .ofDeclared (.ofName (← expect .name).text)
  else
    return .any

/-- A block in braces: its tokens, with the end of input behind them. -/
def body : CursorM (List Token) := do
  let cursor ← get
  if cursor.current.kind = .opening .curly then
    match Token.curlyBody? 0 cursor.rest with
    | some tokens => do
      set (Nat.repeat Cursor.step (tokens.length + 1) cursor).advance
      return tokens ++ [Token.eof]
    | none => unexpectedCurrent
  else
    unexpectedCurrent

/-- A lambda. Its body is not looked into; it starts on the line of its opening brace. -/
def lambda : CursorM Function := do
  let _ ← expectKeyword "lambda"
  let _ ← expect (.opening .round)
  let parameters ← bounded parameters
  let _ ← expect (.closing .round)
  let returnTypes ← returnTypes
  let startLine := (← get).line
  let body ← body
  return { parameters, body, returnTypes, startLine, mark := none }

end CursorM

end GradualScript
