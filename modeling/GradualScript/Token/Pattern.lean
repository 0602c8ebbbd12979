import GradualScript.Token.Basic

/-!
# Lexical patterns

* `Pattern` : the shapes of text that the language is made of, `Pattern.table` in the order they are tried;
* `Pattern.match?` : the text a pattern takes from the start of a remainder, and what follows it;
* `Pattern.append_of_match?` : the two parts make up the remainder, and the first is not empty.
-/

set_option autoImplicit false

namespace GradualScript

/-- A shape of text. All but `fixed` take as many characters as they can. -/
inductive Pattern where
  /-- A letter or underscore, then letters, digits and underscores (all of them ASCII). -/
  | word
  /-- Decimal digits, then possibly a point and more digits. -/
  | number
  /-- Spaces, tabs and carriage returns. -/
  | blanks
  /-- A string between double quotes, in which a backslash takes the character after it along. -/
  | quoted
  /-- One character, or a backslash and one character, between single quotes. -/
  | quotedChar
  /-- Two slashes and the rest of the line. -/
  | comment
  /-- A sign marked as unary by a dollar. -/
  | markedSign
  /-- A plus or minus, which is unary or binary depending on what stands before it. -/
  | sign
  /-- A token of one kind that is always spelled the same. -/
  | fixed (kind : TokenKind) (spelling : List Char)
deriving DecidableEq

namespace Pattern

/-- The patterns in the order they are tried; the first that matches is taken. -/
def table : List Pattern :=
  [ word, number, fixed .newline ['\n'], blanks, quoted, quotedChar, comment,
    fixed (.opening .square) ['['], fixed (.closing .square) [']'],
    fixed (.opening .curly) ['{'], fixed (.closing .curly) ['}'],
    fixed (.opening .round) ['('], fixed (.closing .round) [')'],
    fixed .operator ['=', '='], fixed .operator ['!', '='], fixed .operator ['!'], fixed .assignment ['='],
    fixed .operator ['<', '='], fixed .operator ['<'], fixed .operator ['>', '='], fixed .operator ['>'],
    fixed .operator ['|', '|'], fixed .operator ['&', '&'], fixed .operator ['^'],
    fixed .dot ['.'], fixed .semicolon [';'], fixed .colon [':'], fixed .comma [','], fixed .arrow ['-', '>'],
    markedSign, sign,
    fixed .operator ['*', '*'], fixed .operator ['*'], fixed .operator ['/'], fixed .operator ['%'] ]

/-! ## Matching -/

/-- The longest initial run of characters of a class, if there is one, and the rest. -/
def run? (p : Char → Bool) (cs : List Char) : Option (List Char × List Char) :=
  match cs.takeWhile p with
  | [] => none
  | taken => some (taken, cs.dropWhile p)

def isWordStart (c : Char) : Bool :=
  c.isAlpha || c = '_'

def isWordChar (c : Char) : Bool :=
  c.isAlphanum || c = '_'

def isSign (c : Char) : Bool :=
  c = '+' || c = '-'

/-- The characters that separate tokens without ending a line. -/
def isGap (c : Char) : Bool :=
  c = ' ' || c = '\t' || c = '\r'

def matchWord? : List Char → Option (List Char × List Char)
  | c :: cs => if isWordStart c then some (c :: cs.takeWhile isWordChar, cs.dropWhile isWordChar) else none
  | [] => none

/-- A point with digits behind it, or nothing. -/
def matchFraction : List Char → List Char × List Char
  | '.' :: cs =>
    match run? Char.isDigit cs with
    | some (digits, rest) => ('.' :: digits, rest)
    | none => ([], '.' :: cs)
  | cs => ([], cs)

def matchNumber? (cs : List Char) : Option (List Char × List Char) :=
  (run? Char.isDigit cs).map fun (digits, rest) => (digits ++ (matchFraction rest).1, (matchFraction rest).2)

/-- The rest of a string up to and with its closing quote. A line break may stand in a string, but not after
a backslash. -/
def matchQuotedRest? : List Char → Option (List Char × List Char)
  | [] => none
  | '"' :: cs => some (['"'], cs)
  | '\\' :: c :: cs =>
    if c = '\n' then none else (matchQuotedRest? cs).map fun (taken, rest) => ('\\' :: c :: taken, rest)
  | c :: cs => if c = '\\' then none else (matchQuotedRest? cs).map fun (taken, rest) => (c :: taken, rest)

def matchQuoted? : List Char → Option (List Char × List Char)
  | '"' :: cs => (matchQuotedRest? cs).map fun (taken, rest) => ('"' :: taken, rest)
  | _ => none

def matchQuotedChar? : List Char → Option (List Char × List Char)
  | '\x27' :: '\\' :: c :: '\x27' :: cs => if c = '\n' then none else some (['\x27', '\\', c, '\x27'], cs)
  | '\x27' :: c :: '\x27' :: cs => if c = '\x27' || c = '\\' then none else some (['\x27', c, '\x27'], cs)
  | _ => none

def matchComment? : List Char → Option (List Char × List Char)
  | '/' :: '/' :: cs => some ('/' :: '/' :: cs.takeWhile (· ≠ '\n'), cs.dropWhile (· ≠ '\n'))
  | _ => none

def matchMarkedSign? : List Char → Option (List Char × List Char)
  | '$' :: c :: cs => if isSign c then some (['$', c], cs) else none
  | _ => none

def matchSign? : List Char → Option (List Char × List Char)
  | c :: cs => if isSign c then some ([c], cs) else none
  | [] => none

/-- A spelling that stands at the start. An empty spelling matches nothing. -/
def matchFixed? (spelling cs : List Char) : Option (List Char × List Char) :=
  if spelling.isPrefixOf cs && !spelling.isEmpty then some (spelling, cs.drop spelling.length) else none

/-- The text that the pattern takes from the start of `cs`, and the text behind it. -/
def match? : Pattern → List Char → Option (List Char × List Char)
  | word, cs => matchWord? cs
  | number, cs => matchNumber? cs
  | blanks, cs => run? isGap cs
  | quoted, cs => matchQuoted? cs
  | quotedChar, cs => matchQuotedChar? cs
  | comment, cs => matchComment? cs
  | markedSign, cs => matchMarkedSign? cs
  | sign, cs => matchSign? cs
  | fixed _ spelling, cs => matchFixed? spelling cs

/-! ## What a match is made of -/

theorem run?_eq_some {p : Char → Bool} {cs taken rest : List Char} (h : run? p cs = some (taken, rest)) :
    taken = cs.takeWhile p ∧ rest = cs.dropWhile p ∧ taken ≠ [] := by
  unfold run? at h
  split at h
  · simp at h
  · simp only [Option.some.injEq, Prod.mk.injEq] at h
    obtain ⟨rfl, rfl⟩ := h
    exact ⟨rfl, rfl, by assumption⟩

theorem matchFraction_append (cs : List Char) : (matchFraction cs).1 ++ (matchFraction cs).2 = cs := by
  unfold matchFraction
  split
  · split
    · rename_i h
      obtain ⟨rfl, rfl, -⟩ := run?_eq_some h
      simp
    · rfl
  · rfl

theorem matchQuotedRest?_append {cs taken rest : List Char} (h : matchQuotedRest? cs = some (taken, rest)) :
    taken ++ rest = cs := by
  fun_induction matchQuotedRest? cs generalizing taken <;> grind [Option.map_eq_some_iff]

/-- A match cuts its text off the front of the remainder, and never takes nothing. -/
theorem append_of_match? {p : Pattern} {cs taken rest : List Char} (h : p.match? cs = some (taken, rest)) :
    taken ++ rest = cs ∧ taken ≠ [] := by
  cases p with
  | word => unfold match? matchWord? at h; grind [List.takeWhile_append_dropWhile]
  | number =>
    simp only [match?, matchNumber?, Option.map_eq_some_iff, Prod.mk.injEq, Prod.exists] at h
    obtain ⟨digits, tail, hrun, rfl, rfl⟩ := h
    obtain ⟨rfl, rfl, hne⟩ := run?_eq_some hrun
    simp [matchFraction_append, hne]
  | blanks =>
    obtain ⟨rfl, rfl, hne⟩ := run?_eq_some h
    simp [hne]
  | quoted =>
    simp only [match?] at h
    unfold matchQuoted? at h
    split at h
    · simp only [Option.map_eq_some_iff, Prod.mk.injEq, Prod.exists] at h
      obtain ⟨inner, tail, hrest, rfl, rfl⟩ := h
      simp [matchQuotedRest?_append hrest]
    · simp at h
  | quotedChar => unfold match? matchQuotedChar? at h; grind
  | comment => unfold match? matchComment? at h; grind [List.takeWhile_append_dropWhile]
  | markedSign => unfold match? matchMarkedSign? at h; grind
  | sign => unfold match? matchSign? at h; grind
  | fixed kind spelling =>
    simp only [match?, matchFixed?] at h
    split at h
    · rename_i hspell
      simp only [Bool.and_eq_true, List.isPrefixOf_iff_prefix, Bool.not_eq_true', List.isEmpty_eq_false_iff] at hspell
      simp only [Option.some.injEq, Prod.mk.injEq] at h
      obtain ⟨rfl, rfl⟩ := h
      obtain ⟨⟨tail, rfl⟩, hne⟩ := hspell
      simp [hne]
    · simp at h

/-- The text behind a match is shorter than the remainder. -/
theorem length_lt_of_match? {p : Pattern} {cs taken rest : List Char} (h : p.match? cs = some (taken, rest)) :
    rest.length < cs.length := by
  obtain ⟨rfl, hne⟩ := append_of_match? h
  have := List.length_pos_iff.mpr hne
  simp only [List.length_append]
  omega

end Pattern

end GradualScript
