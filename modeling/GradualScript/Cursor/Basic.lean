import GradualScript.Error.Basic
import GradualScript.Token.Basic

/-!
# Cursors

* `Cursor` : a list of tokens with one of them current, so that there is always a current token;
* `Cursor.tokens`, `Cursor.position`, `Cursor.line` : the list, the place in it and the line there;
* `Cursor.step`, `Cursor.advance`, `Cursor.seek` : moves, which keep the list (`tokens_step`, …);
* `Cursor.peek`, `Cursor.peekRaw`, `Cursor.previous?` : the tokens nearby.
-/

set_option autoImplicit false

namespace GradualScript

/-- A list of tokens, of which one is current. -/
structure Cursor where
  /-- The tokens before the current one, the nearest first. -/
  before : List Token
  current : Token
  /-- The tokens behind the current one. -/
  rest : List Token

namespace Cursor

/-- A cursor on the first of `tokens`, which have to end with the end of input. -/
def ofTokens? : List Token → Option Cursor
  | [] => none
  | token :: rest =>
    if (rest.getLastD token).kind = .eof then some ⟨[], token, rest⟩ else none

/-- The whole list. -/
def tokens (cursor : Cursor) : List Token :=
  cursor.before.reverse ++ cursor.current :: cursor.rest

/-- The index of the current token. -/
def position (cursor : Cursor) : Nat :=
  cursor.before.length

/-- The zero-based line of the current token, a natural number as in `Token.lineOf`. -/
def line (cursor : Cursor) : Nat :=
  cursor.before.countP (·.kind = .newline)

/-- The end of input has not been reached. -/
def hasTokens (cursor : Cursor) : Bool :=
  cursor.current.kind ≠ .eof

/-! ## Moves -/

/-- Moves to the next token; stays on the last one. -/
def step (cursor : Cursor) : Cursor :=
  match cursor.rest with
  | [] => cursor
  | token :: rest => ⟨cursor.current :: cursor.before, token, rest⟩

/-- The first token from `current` on whose kind is not in the class. -/
def skipFrom (skipped : TokenKind → Bool) (before : List Token) (current : Token) : List Token → Cursor
  | [] => ⟨before, current, []⟩
  | token :: rest =>
    if skipped current.kind then skipFrom skipped (current :: before) token rest
    else ⟨before, current, token :: rest⟩

/-- Moves to the first token, from the current one on, whose kind is not in the class. -/
def skipWhile (cursor : Cursor) (skipped : TokenKind → Bool) : Cursor :=
  skipFrom skipped cursor.before cursor.current cursor.rest

/-- Moves past line breaks. -/
def skipLineBreaks (cursor : Cursor) : Cursor :=
  cursor.skipWhile (· = .newline)

/-- Moves past line breaks and semicolons. -/
def skipStatementBreaks (cursor : Cursor) : Cursor :=
  cursor.skipWhile TokenKind.isBreak

/-- Moves to the next token that is no line break, but never past the end of input. -/
def advance (cursor : Cursor) : Cursor :=
  if cursor.current.kind = .eof then cursor else cursor.step.skipLineBreaks

/-- The cursor on the first token of its list. -/
def rewind (cursor : Cursor) : Cursor :=
  match cursor.tokens with
  | [] => cursor
  | token :: rest => ⟨[], token, rest⟩

/-- Moves to the token at `index`, or to the last one. -/
def seek (cursor : Cursor) (index : Nat) : Cursor :=
  Nat.repeat step (min index (cursor.position + cursor.rest.length)) cursor.rewind

theorem tokens_step (cursor : Cursor) : cursor.step.tokens = cursor.tokens := by
  unfold step
  split
  · rfl
  · rename_i h
    simp [tokens, h]

theorem tokens_skipFrom (skipped : TokenKind → Bool) (before : List Token) (current : Token) (rest : List Token) :
    (skipFrom skipped before current rest).tokens = before.reverse ++ current :: rest := by
  fun_induction skipFrom skipped before current rest with
  | case1 => rfl
  | case2 before current token rest h ih => simp [ih]
  | case3 => rfl

theorem tokens_skipWhile (cursor : Cursor) (skipped : TokenKind → Bool) :
    (cursor.skipWhile skipped).tokens = cursor.tokens :=
  tokens_skipFrom skipped cursor.before cursor.current cursor.rest

theorem tokens_advance (cursor : Cursor) : cursor.advance.tokens = cursor.tokens := by
  unfold advance
  split
  · rfl
  · rw [skipLineBreaks, tokens_skipWhile, tokens_step]

theorem tokens_rewind (cursor : Cursor) : cursor.rewind.tokens = cursor.tokens := by
  unfold rewind
  split
  · rfl
  · rename_i h
    simp [tokens, ← h]

theorem tokens_repeat_step (n : Nat) (cursor : Cursor) : (Nat.repeat step n cursor).tokens = cursor.tokens := by
  induction n with
  | zero => rfl
  | succ n ih => rw [Nat.repeat, tokens_step, ih]

theorem tokens_seek (cursor : Cursor) (index : Nat) : (cursor.seek index).tokens = cursor.tokens := by
  rw [seek, tokens_repeat_step, tokens_rewind]

/-- The line at the cursor is the line of the token at its position. -/
theorem line_eq_lineOf (cursor : Cursor) : cursor.line = Token.lineOf cursor.tokens cursor.position := by
  have h : cursor.tokens.take cursor.position = cursor.before.reverse := by
    simp [tokens, position]
  rw [line, Token.lineOf, h, List.countP_reverse]

theorem position_lt_length (cursor : Cursor) : cursor.position < cursor.tokens.length := by
  simp [tokens, position]

/-! ## Tokens nearby -/

/-- The nearest token before the current one that is no line break. -/
def previous? (cursor : Cursor) : Option Token :=
  cursor.before.find? (·.kind ≠ .newline)

/-- The nearest token behind the current one that is no line break, or else the current one. -/
def peek (cursor : Cursor) : Token :=
  (cursor.rest.find? (·.kind ≠ .newline)).getD cursor.current

/-- The token right behind the current one, or else the current one. -/
def peekRaw (cursor : Cursor) : Token :=
  cursor.rest.headD cursor.current

/-- The current token comes right after a line break or a semicolon. -/
def followsBreak (cursor : Cursor) : Bool :=
  match cursor.before with
  | [] => false
  | token :: _ => token.kind.isBreak

/-! ## Where an expression ends -/

/-- What the current token means for an expression that is being read. -/
inductive Boundary where
  | inside
  | ends
  /-- Two values stand next to each other. -/
  | clash
deriving DecidableEq

/-- The token can be the end of an operand. -/
def endsOperand (token : Token) : Bool :=
  token.kind.isObject || token.kind.isClosing || token.isKeyword

/-- The token can be the start of an operand. -/
def startsOperand (token : Token) : Bool :=
  token.kind.isObject || token.kind.isOpening || token.isKeyword || token.isUnaryOperator

/-- Whether an expression that began at index `first` ends at the current token; `balanced` says that no bracket
is open in it. A value right behind a value ends the expression if a line break is between them or if it is
`else`, and is out of place otherwise. -/
def boundary (cursor : Cursor) (first : Nat) (balanced : Bool) : Boundary :=
  let token := cursor.current
  if token.kind = .eof then .ends
  else if cursor.position = first then .inside
  else if token.kind.isTerminator || token.kind = .comma || (token.kind.isClosing && balanced) then .ends
  else
    match cursor.previous? with
    | none => .inside
    | some previous =>
      if endsOperand previous && startsOperand token then
        if cursor.followsBreak || token.isKeywordOf "else" then .ends else .clash
      else .inside

/-- The brackets that wait for their partner after a token: it takes the last one off if it closes that, and waits
itself if it is a bracket otherwise. -/
def track (waiting : List TokenKind) (kind : TokenKind) : List TokenKind :=
  if kind.isBracket then
    match waiting with
    | last :: others => if last.pairs kind then others else kind :: waiting
    | [] => [kind]
  else waiting

end Cursor

end GradualScript
