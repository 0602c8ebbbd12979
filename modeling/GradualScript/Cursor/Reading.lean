import GradualScript.Cursor.Basic

/-!
# Reading tokens

* `CursorM` : computations that move a cursor;
* `CursorM.expect`, `CursorM.expectKeyword` : read one token of a kind;
* `CursorM.bounded` : a loop that takes at most one step per token.
-/

set_option autoImplicit false

namespace GradualScript

/-- A computation that moves a cursor. When it fails, the cursor stays where it was. -/
abbrev CursorM := EStateM Failure Cursor

namespace CursorM

/-- Fails with an error at the line of the current token. -/
def fail {α : Type} (kind : ErrorKind) : CursorM α := fun cursor =>
  .error (.error (kind.at cursor.line)) cursor

/-- Fails since a token is out of place. -/
def unexpected {α : Type} (token : Token) : CursorM α :=
  fail (.unexpectedToken token.text)

/-- Fails since the current token is out of place. -/
def unexpectedCurrent {α : Type} : CursorM α := do
  unexpected (← get).current

def currentKind : CursorM TokenKind := fun cursor => .ok cursor.current.kind cursor

/-- Reads the current token. -/
def advance : CursorM Token := fun cursor => .ok cursor.current cursor.advance

def skipLineBreaks : CursorM Unit := modify Cursor.skipLineBreaks

def skipStatementBreaks : CursorM Unit := modify Cursor.skipStatementBreaks

/-- Reads a token of a kind. -/
def expect (kind : TokenKind) : CursorM Token := do
  if (← get).current.kind = kind then advance else unexpectedCurrent

/-- Reads a keyword. -/
def expectKeyword (word : String) : CursorM Token := do
  if (← get).current.isKeywordOf word then advance else unexpectedCurrent

/-- Runs a loop that is given one step more than there are tokens to come. -/
def bounded {α : Type} (loop : Nat → CursorM α) : CursorM α := do
  loop ((← get).rest.length + 1)

/-- The loop has no step left. -/
def outOfSteps {α : Type} : CursorM α :=
  throw (.fault .outOfSteps)

end CursorM

end GradualScript
