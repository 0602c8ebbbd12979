import GradualScript.Error.Basic
import GradualScript.Token.Lexeme

/-!
# From source text to tokens

* `Source` : a text and the name of the file it comes from;
* `Lexing` : the tokens read so far, with the byte offset reached and the brackets that are open;
* `Source.tokenize` : all tokens of a source, ended by one `eof`, or the first character that starts no lexeme;
* `SourceReader` : a source with a byte offset into it.
-/

set_option autoImplicit false

namespace GradualScript

/-- A text and the name of the file it comes from. -/
structure Source where
  text : String
  file : String

/-- The source of a text that was typed in. -/
def Source.ofText (text : String) : Source := ⟨text, "shell"⟩

/-! ## Assembling tokens -/

/-- How far a source has been read. -/
structure Lexing where
  /-- The tokens, the latest first. -/
  tokens : List Token
  /-- The byte that comes next. -/
  offset : Nat
  /-- The brackets that are open, the innermost first. -/
  opened : List Bracket

namespace Lexing

/-- Nothing has been read. -/
def start : Lexing := ⟨[], 0, []⟩

/-- The token that decides whether a sign is unary: directly inside round brackets a line break does not end
the expression, and the token before it decides. -/
def previous? (lexing : Lexing) : Option Token :=
  if lexing.opened.head? = some .round then lexing.tokens.find? (·.kind ≠ .newline) else lexing.tokens.head?

/-- A sign that comes next has nothing on its left that could be its operand. -/
def expectsOperand (lexing : Lexing) : Bool :=
  match lexing.previous? with
  | none => true
  | some token => !(token.kind.isObject || token.isKeywordOf "this" || token.kind.isClosing)

/-- The brackets that are open after a token: a closing bracket closes the innermost one, whatever its shape. -/
def track (opened : List Bracket) : TokenKind → List Bracket
  | .opening shape => shape :: opened
  | .closing _ => opened.tail
  | _ => opened

/-- Reads one lexeme of a file. -/
def read (file : String) (lexing : Lexing) (lexeme : Lexeme) : Lexing :=
  let size := Lexeme.byteSize lexeme.chars
  match lexeme.reading? lexing.expectsOperand with
  | none => { lexing with offset := lexing.offset + size }
  | some (kind, text) =>
    { tokens := ⟨kind, String.ofList text, .ofBytes lexing.offset size file⟩ :: lexing.tokens
      offset := lexing.offset + size
      opened := track lexing.opened kind }

/-- The tokens in source order, ended by the end of input. -/
def finish (file : String) (lexing : Lexing) : List Token :=
  (⟨.eof, "EOF", .ofBytes lexing.offset 0 file⟩ :: lexing.tokens).reverse

end Lexing

/-- The tokens of a source. -/
def Source.tokenize (source : Source) : Except Error (List Token) :=
  match Lexeme.split source.text.toList with
  | (lexemes, []) => .ok ((lexemes.foldl (Lexing.read source.file) Lexing.start).finish source.file)
  | (lexemes, c :: _) =>
    .error ⟨.unrecognisedToken (String.ofList [c]), lexemes.countP Lexeme.isLineBreak⟩

/-! ## Reading by bytes -/

/-- A source that has been read up to a byte offset, which may lie behind its end. -/
structure SourceReader where
  source : Source
  offset : Nat

namespace SourceReader

def ofSource (source : Source) : SourceReader := ⟨source, 0⟩

/-- The characters from the byte offset `n` on. -/
def dropBytes : Nat → List Char → List Char
  | 0, cs => cs
  | _ + 1, [] => []
  | n + 1, c :: cs => dropBytes (n + 1 - c.utf8Size) cs

/-- Moves on by `n` bytes. -/
def advance (reader : SourceReader) (n : Nat) : SourceReader :=
  { reader with offset := reader.offset + n }

/-- The text that has not been read. -/
def remainder (reader : SourceReader) : String :=
  String.ofList (dropBytes reader.offset reader.source.text.toList)

/-- The next character, or the null character at the end. -/
def next (reader : SourceReader) : Char :=
  (dropBytes reader.offset reader.source.text.toList).headD '\x00'

def atEnd (reader : SourceReader) : Bool :=
  reader.source.text.utf8ByteSize ≤ reader.offset

/-- The span of the next `n` bytes. -/
def spanOf (reader : SourceReader) (n : Nat) : Span :=
  .ofBytes reader.offset n reader.source.file

end SourceReader

end GradualScript
