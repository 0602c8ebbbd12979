import GradualScript.Token.Pattern

/-!
# Lexemes

* `Lexeme` : a piece of the source under the pattern that took it;
* `Lexeme.first?`, `Lexeme.split` : the first lexeme of a text, and all of them up to the first character that
  starts none;
* `Lexeme.unescape` : the characters that a quoted text stands for;
* `Lexeme.reading?` : the kind and text of the token that a lexeme becomes.
-/

set_option autoImplicit false

namespace GradualScript

/-- A piece of source text and the pattern that took it. -/
structure Lexeme where
  pattern : Pattern
  chars : List Char
deriving DecidableEq

namespace Lexeme

/-! ## Splitting a text -/

/-- The first match among the patterns. -/
def firstOf? (cs : List Char) : List Pattern → Option (Lexeme × List Char)
  | [] => none
  | p :: ps =>
    match p.match? cs with
    | some (taken, rest) => some (⟨p, taken⟩, rest)
    | none => firstOf? cs ps

/-- The lexeme at the start of the text, and the text behind it. -/
def first? (cs : List Char) : Option (Lexeme × List Char) :=
  firstOf? cs Pattern.table

theorem firstOf?_eq_some {cs rest : List Char} {lexeme : Lexeme} {ps : List Pattern}
    (h : firstOf? cs ps = some (lexeme, rest)) :
    lexeme.pattern ∈ ps ∧ lexeme.pattern.match? cs = some (lexeme.chars, rest) := by
  induction ps with
  | nil => simp [firstOf?] at h
  | cons p ps ih =>
    simp only [firstOf?] at h
    split at h
    · rename_i taken tail hmatch
      simp only [Option.some.injEq, Prod.mk.injEq] at h
      obtain ⟨rfl, rfl⟩ := h
      exact ⟨by simp, hmatch⟩
    · exact ⟨by simp [(ih h).1], (ih h).2⟩

theorem append_of_first? {cs rest : List Char} {lexeme : Lexeme} (h : first? cs = some (lexeme, rest)) :
    lexeme.chars ++ rest = cs :=
  (Pattern.append_of_match? (firstOf?_eq_some h).2).1

theorem length_lt_of_first? {cs rest : List Char} {lexeme : Lexeme} (h : first? cs = some (lexeme, rest)) :
    rest.length < cs.length :=
  Pattern.length_lt_of_match? (firstOf?_eq_some h).2

/-- The lexemes of a text, and the text from the first character on that starts no lexeme. -/
def split (cs : List Char) : List Lexeme × List Char :=
  match h : first? cs with
  | none => ([], cs)
  | some (lexeme, rest) =>
    have := length_lt_of_first? h
    (split rest).map (lexeme :: ·) id
termination_by cs.length

/-- Splitting loses nothing: the lexemes and what is behind them make up the text. -/
theorem split_append (cs : List Char) : (split cs).1.flatMap Lexeme.chars ++ (split cs).2 = cs := by
  fun_induction split cs with
  | case1 cs h => rfl
  | case2 cs lexeme rest h _ ih =>
    rw [Prod.map_fst, Prod.map_snd, List.flatMap_cons, List.append_assoc, id, ih, append_of_first? h]

/-! ## What a lexeme stands for -/

/-- The character that is written by a backslash before `c`. -/
def escaped? : Char → Option Char
  | 'n' => some '\n'
  | 't' => some '\t'
  | 'r' => some '\r'
  | '0' => some '\x00'
  | '\\' => some '\\'
  | '"' => some '"'
  | '\x27' => some '\x27'
  | _ => none

/-- A text with its escapes replaced. A backslash that starts no escape stands for itself. -/
def unescape : List Char → List Char
  | '\\' :: c :: cs =>
    match escaped? c with
    | some d => d :: unescape cs
    | none => '\\' :: c :: unescape cs
  | c :: cs => c :: unescape cs
  | [] => []

/-- The text between the first and the last character. -/
def inner (cs : List Char) : List Char :=
  (cs.drop 1).dropLast

/-- The words that are no names. -/
def keywords : List String :=
  ["let", "const", "return", "if", "else", "lambda", "this"]

/-- The kind of a word: a truth value, a keyword or a name. -/
def wordKind (word : String) : TokenKind :=
  if word = "true" || word = "false" then .bool
  else if keywords.contains word then .keyword
  else .name

/-- The kind and the text of the token that a lexeme becomes; blanks and comments become none. A bare sign is
marked as unary where `unary` holds. -/
def reading? (lexeme : Lexeme) (unary : Bool) : Option (TokenKind × List Char) :=
  match lexeme.pattern with
  | .word => some (wordKind (String.ofList lexeme.chars), lexeme.chars)
  | .number => some (if lexeme.chars.contains '.' then .float else .int, lexeme.chars)
  | .blanks | .comment => none
  | .quoted => some (.string, unescape (inner lexeme.chars))
  | .quotedChar => some (.char, unescape (inner lexeme.chars))
  | .markedSign => some (.operator, lexeme.chars)
  | .sign => some (.operator, if unary then '$' :: lexeme.chars else lexeme.chars)
  | .fixed kind _ => some (kind, lexeme.chars)

/-- The lexeme ends a line. -/
def isLineBreak (lexeme : Lexeme) : Bool :=
  lexeme.pattern = .fixed .newline ['\n']

/-- The number of bytes of a text in UTF-8. -/
def byteSize : List Char → Nat
  | [] => 0
  | c :: cs => c.utf8Size + byteSize cs

@[simp] theorem byteSize_append (cs ds : List Char) : byteSize (cs ++ ds) = byteSize cs + byteSize ds := by
  induction cs with
  | nil => simp [byteSize]
  | cons c cs ih => rw [List.cons_append, byteSize, byteSize, ih, Nat.add_assoc]

end Lexeme

end GradualScript
