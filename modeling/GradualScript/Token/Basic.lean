/-!
# Tokens

* `Bracket`, `TokenKind` : the classes of tokens, with one predicate per class the grammar asks about;
* `Span`, `Token` : a token is a kind, its text and the bytes of the source it was read from;
* `Token.lineOf`, `Token.lineTable` : the line of one token and of all of them, counted in line breaks.
-/

set_option autoImplicit false

namespace GradualScript

/-- The three shapes of brackets. -/
inductive Bracket where
  | round
  | square
  | curly
deriving DecidableEq

/-- The class of a token. -/
inductive TokenKind where
  | name
  | keyword
  | operator
  | int
  | float
  | string
  | char
  | bool
  | opening (shape : Bracket)
  | closing (shape : Bracket)
  | assignment
  | comma
  | dot
  | colon
  | arrow
  | semicolon
  | newline
  | eof
deriving DecidableEq

namespace TokenKind

/-- The name under which a kind is shown. -/
def label : TokenKind → String
  | name => "Name"
  | keyword => "Keyword"
  | operator => "Operator"
  | int => "Int"
  | float => "Float"
  | string => "String"
  | char => "Char"
  | bool => "Bool"
  | opening .round => "OpenParen"
  | opening .square => "OpenBracket"
  | opening .curly => "OpenCurly"
  | closing .round => "CloseParen"
  | closing .square => "CloseBracket"
  | closing .curly => "CloseCurly"
  | assignment => "Assignment"
  | comma => "Comma"
  | dot => "Dot"
  | colon => "Colon"
  | arrow => "Arrow"
  | semicolon => "EOE"
  | newline => "EOL"
  | eof => "EOF"

/-- Kinds whose tokens spell a value out. -/
def isLiteral : TokenKind → Bool
  | int | float | string | char | bool => true
  | _ => false

/-- Kinds whose tokens stand for a value on their own: names and literals. -/
def isObject (kind : TokenKind) : Bool :=
  kind = name || kind.isLiteral

def isOpening : TokenKind → Bool
  | opening _ => true
  | _ => false

def isClosing : TokenKind → Bool
  | closing _ => true
  | _ => false

def isBracket (kind : TokenKind) : Bool :=
  kind.isOpening || kind.isClosing

/-- Kinds that end a statement: a semicolon, a line break or the end of input. -/
def isTerminator : TokenKind → Bool
  | semicolon | newline | eof => true
  | _ => false

/-- Kinds that only separate statements: a semicolon or a line break. -/
def isBreak : TokenKind → Bool
  | semicolon | newline => true
  | _ => false

/-- An opening and a closing bracket of one shape, in this order. -/
def pairs : TokenKind → TokenKind → Bool
  | opening s, closing t => s = t
  | _, _ => false

end TokenKind

/-- The bytes `start ≤ · < stop` of a file. Offsets are kept in 32 bits. -/
structure Span where
  start : Nat
  stop : Nat
  file : String
deriving DecidableEq

namespace Span

/-- The first offset that does not fit in 32 bits. -/
def offsetLimit : Nat := 0x100000000

/-- The span of `size` bytes from `offset` on. -/
def ofBytes (offset size : Nat) (file : String) : Span :=
  ⟨offset % offsetLimit, (offset + size) % offsetLimit, file⟩

/-- The offsets of a file that is shorter than the limit are kept as they are. -/
theorem ofBytes_of_lt {offset size : Nat} (h : offset + size < offsetLimit) (file : String) :
    ofBytes offset size file = ⟨offset, offset + size, file⟩ := by
  rw [ofBytes, Nat.mod_eq_of_lt h, Nat.mod_eq_of_lt (by omega)]

/-- The span of a token that was not read from a file. -/
def null : Span := ⟨0, 0, "<null>"⟩

end Span

/-- A token: its kind, its text and where it was read. -/
structure Token where
  kind : TokenKind
  text : String
  span : Span
deriving DecidableEq

namespace Token

/-- The end of a token list that was cut out of a longer one. -/
def eof : Token := ⟨.eof, "EOF", .null⟩

def isKeyword (token : Token) : Bool :=
  token.kind = .keyword

/-- The token is the keyword `word`. -/
def isKeywordOf (token : Token) (word : String) : Bool :=
  token.kind = .keyword && token.text = word

def isOperator (token : Token) : Bool :=
  token.kind = .operator

/-- The token is an operator that can only stand before its operand. -/
def isUnaryOperator (token : Token) : Bool :=
  token.isOperator && (token.text = "$+" || token.text = "$-" || token.text = "!")

/-- A token as it is shown, over three lines. -/
def describe (token : Token) : String :=
  "Token \x7b\nkind: " ++ token.kind.label ++ ",\nvalue: " ++ token.text ++ "\x7d"

/-! ## Lines -/

/-- The zero-based line of the token at `index`: the line breaks before it, counted without a bound of
32 bits. -/
def lineOf (tokens : List Token) (index : Nat) : Nat :=
  (tokens.take index).countP (·.kind = .newline)

/-- The lines of `tokens` when the first of them stands on line `line`. -/
def lineTableFrom (line : Nat) : List Token → List Nat
  | [] => []
  | token :: rest => line :: lineTableFrom (if token.kind = .newline then line + 1 else line) rest

/-- The zero-based line of every token. -/
def lineTable (tokens : List Token) : List Nat :=
  lineTableFrom 0 tokens

theorem getElem?_lineTableFrom (line : Nat) (tokens : List Token) (index : Nat) (h : index < tokens.length) :
    (lineTableFrom line tokens)[index]? = some (line + lineOf tokens index) := by
  induction tokens generalizing line index with
  | nil => simp at h
  | cons token rest ih =>
    cases index with
    | zero => simp [lineTableFrom, lineOf]
    | succ index =>
      have hrest : index < rest.length := by simpa using h
      rw [lineTableFrom, List.getElem?_cons_succ, ih _ _ hrest]
      by_cases hk : token.kind = .newline
      · simp only [hk, lineOf, List.take_succ_cons, List.countP_cons_of_pos, decide_true, if_true, Option.some.injEq]
        omega
      · simp [hk, lineOf]

/-- The table has the line of each token at the token's index. -/
theorem getElem?_lineTable (tokens : List Token) (index : Nat) (h : index < tokens.length) :
    (lineTable tokens)[index]? = some (lineOf tokens index) := by
  rw [lineTable, getElem?_lineTableFrom 0 tokens index h, Nat.zero_add]

end Token

end GradualScript
