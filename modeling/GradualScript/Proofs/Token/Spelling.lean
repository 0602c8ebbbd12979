import GradualScript.Proofs.Token.Lines

/-!
# Printing tokens and reading them again

Every token has a spelling that is read as this token again, wherever blanks stand around it. A sign was unary or binary
because of the tokens before it, and a unary one is spelled with its mark.

* `Lexeme.escape`, `Token.spelling` : how a token is spelled;
* `Lexeme.Spells` : the spelling of a token is a lexeme that becomes the token (`exists_spells`);
* `Lexing.Agrees` : two readings that have got the same tokens, wherever these stood;
* `split_spaced` : lexemes with single blanks between them are split into just these;
* `tokenize_spelled` : the spellings of the tokens of a source, with blanks between them, are read as the same tokens.
-/

set_option autoImplicit false

namespace GradualScript

/-! ## Spellings -/

/-- The text with a backslash before each backslash and each quote. -/
def Lexeme.escape (quote : Char) (text : List Char) : List Char :=
  text.flatMap fun c => if c = '\\' ∨ c = quote then ['\\', c] else [c]

/-- How a token is spelled. Strings and characters stand between quotes, with what has to be escaped in them. The value
of a character token that is two characters long is an unknown escape, and stays as it is. -/
def Token.spelling (token : Token) : String :=
  match token.kind, token.text.toList with
  | .string, text => String.ofList ('"' :: (Lexeme.escape '"' text ++ ['"']))
  | .char, [c] => String.ofList ('\x27' :: (Lexeme.escape '\x27' [c] ++ ['\x27']))
  | .char, text => String.ofList ('\x27' :: (text ++ ['\x27']))
  | _, _ => token.text

theorem Token.spelling_of_plain {token : Token} (hstring : token.kind ≠ .string) (hchar : token.kind ≠ .char) :
    token.spelling = token.text := by
  unfold spelling
  split
  · exact absurd ‹_› hstring
  · exact absurd ‹_› hchar
  · exact absurd ‹_› hchar
  · rfl

namespace Lexeme

theorem escape_cons (quote c : Char) (text : List Char) :
    escape quote (c :: text) = (if c = '\\' ∨ c = quote then ['\\', c] else [c]) ++ escape quote text :=
  rfl

/-- An escaped text has no bare quote in it. -/
theorem enclosed_escape (text : List Char) : Enclosed (escape '"' text) := by
  induction text with
  | nil => exact .nil
  | cons c text ih =>
    rw [escape_cons]
    split
    · rename_i hc
      refine .escape ?_ ih
      rcases hc with rfl | rfl
      · decide
      · decide
    · rename_i hc
      rw [not_or] at hc
      exact .plain hc.2 hc.1 ih

theorem unescape_cons {c : Char} (h : c ≠ '\\') (text : List Char) : unescape (c :: text) = c :: unescape text := by
  rw [unescape]
  rintro _ _ rfl
  exact absurd rfl h

/-- Escapes stand for what was escaped. -/
theorem unescape_escape {quote : Char} (hquote : escaped? quote = some quote) (text : List Char) :
    unescape (escape quote text) = text := by
  induction text with
  | nil => rfl
  | cons c text ih =>
    rw [escape_cons]
    split
    · rename_i hc
      have hescaped : escaped? c = some c := by
        rcases hc with rfl | rfl
        · rfl
        · exact hquote
      rw [List.cons_append, List.singleton_append, unescape, hescaped, ih]
    · rename_i hc
      rw [not_or] at hc
      rw [List.singleton_append, unescape_cons hc.1, ih]

/-! ## A lexeme for every token -/

/-- The characters of the lexeme are the spelling of a token of this kind and text, which it becomes. -/
structure Spells (lexeme : Lexeme) (unary : Bool) (kind : TokenKind) (text : List Char) : Prop where
  formed : Formed lexeme
  reading : lexeme.reading? unary = some (kind, text)
  chars : ∀ span, (Token.mk kind (String.ofList text) span).spelling = String.ofList lexeme.chars

/-- A lexeme that becomes a token with just its own characters spells this token. -/
theorem spells_self {lexeme : Lexeme} {unary : Bool} {kind : TokenKind} (hformed : Formed lexeme)
    (hreading : lexeme.reading? unary = some (kind, lexeme.chars)) (hstring : kind ≠ .string) (hchar : kind ≠ .char) :
    Spells lexeme unary kind lexeme.chars :=
  ⟨hformed, hreading, fun _ => Token.spelling_of_plain hstring hchar⟩

theorem spells_quoted (unary : Bool) (text : List Char) :
    Spells ⟨.quoted, '"' :: (escape '"' text ++ ['"'])⟩ unary .string text := by
  refine ⟨.quoted (enclosed_escape text), ?_, fun span => ?_⟩
  · rw [reading?]
    dsimp only
    rw [inner_quoted, unescape_escape rfl]
  · rw [Token.spelling]
    dsimp only
    rw [String.toList_ofList]

theorem spells_char (unary : Bool) (c : Char) :
    Spells ⟨.quotedChar, '\x27' :: (escape '\x27' [c] ++ ['\x27'])⟩ unary .char [c] := by
  refine ⟨?_, ?_, fun span => ?_⟩
  · rw [escape_cons]
    split
    · rename_i hc
      refine .escapedChar ?_
      rcases hc with rfl | rfl
      · decide
      · decide
    · rename_i hc
      rw [not_or] at hc
      exact .plainChar hc.2 hc.1
  · rw [reading?]
    dsimp only
    rw [inner_quoted, unescape_escape rfl]
  · rw [Token.spelling]
    simp only [String.toList_ofList]

/-- An unknown escape is spelled as it was. -/
theorem spells_escape {c : Char} (hbreak : c ≠ '\n') (hc : escaped? c = none) (unary : Bool) :
    Spells ⟨.quotedChar, ['\x27', '\\', c, '\x27']⟩ unary .char ['\\', c] := by
  refine ⟨.escapedChar hbreak, ?_, fun span => ?_⟩
  · change some (TokenKind.char, unescape ['\\', c]) = _
    rw [unescape, hc]
    rfl
  · rw [Token.spelling]
    simp only [String.toList_ofList]
    rfl

/-- What a lexeme becomes has a spelling. -/
theorem exists_spells {lexeme : Lexeme} {unary : Bool} {kind : TokenKind} {text : List Char} (hformed : Formed lexeme)
    (h : lexeme.reading? unary = some (kind, text)) : ∃ spelled, Spells spelled unary kind text := by
  cases hformed with
  | blanks => cases h
  | comment => cases h
  | quoted hinner =>
    cases h
    exact ⟨_, spells_quoted unary _⟩
  | @escapedChar c hc =>
    cases hescaped : escaped? c with
    | some d =>
      change some (TokenKind.char, unescape ['\\', c]) = _ at h
      rw [unescape, hescaped] at h
      cases h
      exact ⟨_, spells_char unary d⟩
    | none =>
      change some (TokenKind.char, unescape ['\\', c]) = _ at h
      rw [unescape, hescaped] at h
      cases h
      exact ⟨_, spells_escape hc hescaped unary⟩
  | @plainChar c hquote hescape =>
    change some (TokenKind.char, unescape [c]) = _ at h
    rw [unescape_cons hescape] at h
    cases h
    exact ⟨_, spells_char unary c⟩
  | markedSign hc =>
    cases h
    exact ⟨_, spells_self (.markedSign hc) rfl TokenKind.noConfusion TokenKind.noConfusion⟩
  | @sign c hc =>
    -- what decided that the sign is unary is written down in front of it
    cases unary with
    | true =>
      cases h
      exact ⟨_, spells_self (.markedSign hc) rfl TokenKind.noConfusion TokenKind.noConfusion⟩
    | false =>
      cases h
      exact ⟨_, spells_self (.sign hc) rfl TokenKind.noConfusion TokenKind.noConfusion⟩
  | @fixed kind spelling hmem =>
    cases h
    obtain ⟨hstring, hchar, -⟩ := kind_of_mem_table hmem
    exact ⟨_, spells_self (.fixed hmem) rfl hstring hchar⟩
  | @word c cs hstart hcs =>
    cases h
    have hkind : ∀ word, wordKind word ≠ .string ∧ wordKind word ≠ .char := by
      intro word
      unfold wordKind
      split
      · decide
      · split
        · decide
        · decide
    exact ⟨_, spells_self (.word hstart hcs) rfl (hkind _).1 (hkind _).2⟩
  | integer hne hdigits =>
    cases h
    refine ⟨_, spells_self (.integer hne hdigits) rfl ?_ ?_⟩ <;> split <;> decide
  | fraction hne hdigits hmore hdigits' =>
    cases h
    refine ⟨_, spells_self (.fraction hne hdigits hmore hdigits') rfl ?_ ?_⟩ <;> split <;> decide

/-! ## Blanks between lexemes -/

/-- The lexeme can stand between blanks: it is one, and it does not take them in. -/
structure Solid (lexeme : Lexeme) : Prop where
  formed : Formed lexeme
  not_blanks : lexeme.pattern ≠ .blanks
  not_comment : lexeme.pattern ≠ .comment

theorem Spells.solid {lexeme : Lexeme} {unary : Bool} {kind : TokenKind} {text : List Char}
    (h : Spells lexeme unary kind text) : Solid lexeme := by
  have hreading := h.reading
  refine ⟨h.formed, fun hpattern => ?_, fun hpattern => ?_⟩
  · rw [reading?, hpattern] at hreading
    cases hreading
  · rw [reading?, hpattern] at hreading
    cases hreading

/-- Such a lexeme does not begin with a blank. -/
theorem Solid.stopsAt {lexeme : Lexeme} (h : Solid lexeme) (rest : List Char) :
    Text.StopsAt Pattern.isGap (lexeme.chars ++ rest) := by
  have hword : ∀ c, Pattern.isWordStart c = true ∨ c.isDigit = true ∨ Pattern.isSign c = true →
      Pattern.isGap c = false := by
    intro c hc
    rw [Bool.eq_false_iff]
    intro hgap
    have hcases : (c = ' ' ∨ c = '\t') ∨ c = '\r' := by simpa [Pattern.isGap] using hgap
    rcases hcases with (rfl | rfl) | rfl <;> revert hc <;> decide
  obtain ⟨hformed, hblanks, hcomment⟩ := h
  intro c hc
  cases hformed with
  | word hstart =>
    cases hc
    exact hword c (.inl hstart)
  | @integer digits hne hdigits =>
    cases digits with
    | nil => exact absurd rfl hne
    | cons d digits =>
      cases hc
      exact hword c (.inr (.inl (hdigits c List.mem_cons_self)))
  | @fraction digits more hne hdigits =>
    cases digits with
    | nil => exact absurd rfl hne
    | cons d digits =>
      cases hc
      exact hword c (.inr (.inl (hdigits c List.mem_cons_self)))
  | blanks => exact absurd rfl hblanks
  | comment => exact absurd rfl hcomment
  | sign hsign =>
    cases hc
    exact hword c (.inr (.inr hsign))
  | @fixed kind spelling hmem =>
    have hall : ∀ entry ∈ Pattern.table.filterMap Pattern.spelling?,
        entry.2 ≠ [] ∧ entry.2.all (!Pattern.isGap ·) = true := by decide
    obtain ⟨hne, hgap⟩ := hall _ (Pattern.mem_spellings hmem)
    cases spelling with
    | nil => exact absurd rfl hne
    | cons d spelling =>
      cases hc
      simpa using List.all_eq_true.1 hgap c List.mem_cons_self
  | quoted =>
    cases hc
    rfl
  | escapedChar =>
    cases hc
    rfl
  | plainChar =>
    cases hc
    rfl
  | markedSign =>
    cases hc
    rfl

/-- A single blank. -/
def blank : Lexeme := ⟨.blanks, [' ']⟩

theorem split_nil : split [] = ([], []) := by
  rw [split]
  rfl

/-- Lexemes with single blanks between them are split into just these. -/
theorem split_spaced {lexemes : List Lexeme} (h : ∀ lexeme ∈ lexemes, Solid lexeme) :
    split ((lexemes.intersperse blank).flatMap chars) = (lexemes.intersperse blank, []) := by
  match lexemes with
  | [] => exact split_nil
  | [lexeme] =>
    have hfirst := first?_of_formed (h lexeme List.mem_cons_self).formed (Parted.nil lexeme)
    rw [List.intersperse_singleton, List.flatMap_singleton, ← List.append_nil lexeme.chars, split_of_first? hfirst,
      split_nil]
  | lexeme :: next :: lexemes =>
    obtain ⟨hlexeme, hrest⟩ := List.forall_mem_cons.1 h
    have ih := split_spaced hrest
    have hnext : Parted blank (((next :: lexemes).intersperse blank).flatMap chars) := by
      refine .of_stopsAt nofun ?_
      rw [← chars_of_split ih]
      cases lexemes with
      | nil => exact (hrest next List.mem_cons_self).stopsAt []
      | cons => exact (hrest next List.mem_cons_self).stopsAt _
    have hblank : Formed blank := .blanks nofun (by simp [Pattern.isGap])
    have hspace : Parted lexeme (blank.chars ++ ((next :: lexemes).intersperse blank).flatMap chars) :=
      .space hlexeme.not_blanks hlexeme.not_comment _
    rw [List.intersperse_cons_cons, List.flatMap_cons, List.flatMap_cons,
      split_of_first? (first?_of_formed hlexeme.formed hspace), split_of_first? (first?_of_formed hblank hnext), ih]

theorem intercalate_chars (lexemes : List Lexeme) :
    [' '].intercalate (lexemes.map chars) = (lexemes.intersperse blank).flatMap chars := by
  match lexemes with
  | [] => rfl
  | [lexeme] => simp [List.intercalate]
  | lexeme :: next :: lexemes =>
    have ih := intercalate_chars (next :: lexemes)
    rw [List.intercalate, List.map_cons] at ih
    rw [List.intercalate, List.map_cons, List.map_cons, List.intersperse_cons_cons, List.intersperse_cons_cons,
      List.flatten_cons, List.flatten_cons, ih, List.flatMap_cons, List.flatMap_cons]
    rfl

end Lexeme

namespace Lexing

/-! ## Readings with the same tokens -/

/-- The readings have got the same tokens, but for their places. -/
structure Agrees (lexing other : Lexing) : Prop where
  tokens : other.tokens.map Token.content = lexing.tokens.map Token.content
  opened : other.opened = lexing.opened

namespace Agrees

variable {file file' : String} {lexing other : Lexing}

theorem expectsOperand (h : Agrees lexing other) : other.expectsOperand = lexing.expectsOperand := by
  have hfind : ∀ tokens : List Token, (tokens.find? (·.kind ≠ .newline)).map Token.content =
      (tokens.map Token.content).find? (·.1 ≠ .newline) := by
    intro tokens
    rw [List.find?_map]
    rfl
  apply expectsOperand_congr
  rw [previous?, previous?, h.opened]
  split
  · rw [hfind, hfind, h.tokens]
  · rw [← List.head?_map, ← List.head?_map, h.tokens]

theorem trans {third : Lexing} (h : Agrees lexing other) (h' : Agrees other third) : Agrees lexing third :=
  ⟨h'.tokens.trans h.tokens, h'.opened.trans h.opened⟩

/-- Two lexemes that become the same are read alike. -/
theorem read {lexeme lexeme' : Lexeme} (h : Agrees lexing other)
    (hreading : lexeme'.reading? lexing.expectsOperand = lexeme.reading? lexing.expectsOperand) :
    Agrees (lexing.read file lexeme) (other.read file' lexeme') := by
  unfold Lexing.read
  rw [h.expectsOperand, hreading]
  dsimp only
  cases lexeme.reading? lexing.expectsOperand with
  | none => exact ⟨h.tokens, h.opened⟩
  | some reading => exact ⟨congrArg (_ :: ·) h.tokens, congrArg (track · reading.1) h.opened⟩

/-- What becomes no token makes no difference. -/
theorem readBlank (h : Agrees lexing other) : Agrees lexing (other.read file' Lexeme.blank) :=
  ⟨h.tokens, h.opened⟩

theorem readSeparator {lexeme : Lexeme} (h : Agrees lexing other)
    (hreading : lexeme.reading? lexing.expectsOperand = none) : Agrees (lexing.read file lexeme) other := by
  unfold Lexing.read
  rw [hreading]
  exact ⟨h.tokens, h.opened⟩

/-- Blanks between lexemes make no difference. -/
theorem spaced {lexing other : Lexing} (h : Agrees lexing other) (lexemes : List Lexeme) :
    Agrees (lexemes.foldl (Lexing.read file) lexing)
      ((lexemes.intersperse Lexeme.blank).foldl (Lexing.read file') other) := by
  match lexemes with
  | [] => exact h
  | [lexeme] => exact h.read rfl
  | lexeme :: next :: lexemes => exact (h.read rfl).readBlank.spaced (next :: lexemes)

end Agrees

/-- The tokens of a row of lexemes are read again from their spellings. -/
theorem exists_spelled (file file' : String) {lexemes : List Lexeme} (lexing : Lexing)
    (hformed : ∀ lexeme ∈ lexemes, Lexeme.Formed lexeme) :
    ∃ (spelled : List Lexeme) (new : List Token), (∀ lexeme ∈ spelled, Lexeme.Solid lexeme) ∧
      (lexemes.foldl (read file) lexing).tokens = new.reverse ++ lexing.tokens ∧
      new.map Token.spelling = spelled.map (fun lexeme => String.ofList lexeme.chars) ∧
      ∀ other, Agrees lexing other → Agrees (lexemes.foldl (read file) lexing) (spelled.foldl (read file') other) := by
  induction lexemes generalizing lexing with
  | nil => exact ⟨[], [], nofun, rfl, rfl, fun _ h => h⟩
  | cons lexeme lexemes ih =>
    obtain ⟨hlexeme, hrest⟩ := List.forall_mem_cons.1 hformed
    obtain ⟨spelled, new, hsolid, htokens, hspelling, hagrees⟩ := ih (lexing.read file lexeme) hrest
    cases hreading : lexeme.reading? lexing.expectsOperand with
    | none =>
      refine ⟨spelled, new, hsolid, ?_, hspelling, fun other h => hagrees other (h.readSeparator hreading)⟩
      rw [List.foldl_cons, htokens]
      unfold read
      rw [hreading]
    | some reading =>
      obtain ⟨kind, text⟩ := reading
      obtain ⟨first, hfirst⟩ := Lexeme.exists_spells hlexeme hreading
      obtain ⟨token, hread, hspelled⟩ : ∃ token, (lexing.read file lexeme).tokens = token :: lexing.tokens ∧
          token.spelling = String.ofList first.chars := by
        unfold read
        rw [hreading]
        exact ⟨_, rfl, hfirst.chars _⟩
      refine ⟨first :: spelled, token :: new, List.forall_mem_cons.2 ⟨hfirst.solid, hsolid⟩, ?_, ?_, fun other h => ?_⟩
      · rw [List.foldl_cons, htokens, hread, List.reverse_cons, List.append_assoc]
        rfl
      · rw [List.map_cons, List.map_cons, hspelling, hspelled]
      · exact hagrees _ (h.read (hfirst.reading.trans hreading.symm))

theorem Agrees.finish {file file' : String} {lexing other : Lexing} (h : Agrees lexing other) :
    (other.finish file').map Token.content = (lexing.finish file).map Token.content := by
  rw [Lexing.finish, Lexing.finish, List.map_reverse, List.map_reverse, List.map_cons, List.map_cons, h.tokens]
  rfl

end Lexing

/-! ## Printing and reading -/

/-- Solid lexemes with blanks between them are read as what the lexemes become. -/
theorem tokenize_spaced {spelled : List Lexeme} {texts : List String} (file : String)
    (hsolid : ∀ lexeme ∈ spelled, Lexeme.Solid lexeme)
    (htexts : texts = spelled.map (fun lexeme => String.ofList lexeme.chars)) :
    (Source.mk (String.intercalate " " texts) file).tokenize =
      .ok (((spelled.intersperse Lexeme.blank).foldl (Lexing.read file) .start).finish file) := by
  have htext : (String.intercalate " " texts).toList = (spelled.intersperse Lexeme.blank).flatMap Lexeme.chars := by
    rw [String.toList_intercalate, htexts, List.map_map, ← Lexeme.intercalate_chars]
    simp [Function.comp_def]
  rw [Source.tokenize]
  dsimp only
  rw [htext, Lexeme.split_spaced hsolid]

/-- A token that starts a source is read from its spelling alone. -/
theorem tokenize_of_spells {lexeme : Lexeme} {kind : TokenKind} {text : List Char} (h : lexeme.Spells true kind text)
    (file : String) (span : Span) :
    ∃ again, (Source.mk (Token.mk kind (String.ofList text) span).spelling file).tokenize = .ok again ∧
      again.map Token.content = [(kind, String.ofList text), (.eof, "EOF")] := by
  have hsolid : ∀ first ∈ [lexeme], Lexeme.Solid first := by simpa using h.solid
  have htokenize := tokenize_spaced file hsolid rfl
  rw [List.map_singleton, String.intercalate_singleton] at htokenize
  refine ⟨_, (h.chars span) ▸ htokenize, ?_⟩
  have hread : Lexing.start.read file lexeme =
      ⟨[⟨kind, String.ofList text, .ofBytes 0 (Lexeme.byteSize lexeme.chars) file⟩],
        0 + Lexeme.byteSize lexeme.chars, Lexing.track [] kind⟩ := by
    have hreading : lexeme.reading? Lexing.start.expectsOperand = some (kind, text) := h.reading
    rw [Lexing.read, hreading]
    rfl
  rw [List.intersperse_singleton, List.foldl_cons, List.foldl_nil, hread]
  rfl

/-- The spellings of the tokens of an accepted source, with single blanks between them, are accepted and read as the
same tokens. Every text is the value of a string that can be spelled. -/
theorem tokenize_spelled :
    (∀ (source : Source) (tokens : List Token) (file : String), source.tokenize = .ok tokens →
      ∃ again, (Source.mk (String.intercalate " " (tokens.dropLast.map Token.spelling)) file).tokenize = .ok again ∧
        again.map Token.content = tokens.map Token.content) ∧
    ∀ (value file : String) (span : Span),
      ∃ again, (Source.mk (Token.mk .string value span).spelling file).tokenize = .ok again ∧
        again.map Token.content = [(.string, value), (.eof, "EOF")] := by
  constructor
  · intro source tokens file h
    obtain ⟨lexemes, hsplit, rfl⟩ := Source.exists_of_tokenize h
    obtain ⟨spelled, new, hsolid, htokens, hspelling, hagrees⟩ :=
      Lexing.exists_spelled source.file file .start (Lexeme.formed_of_split hsplit)
    refine ⟨_, tokenize_spaced file hsolid ?_, ?_⟩
    · rw [Lexing.dropLast_finish, htokens, ← hspelling]
      simp [Lexing.start]
    · have hself : Lexing.Agrees .start .start := ⟨rfl, rfl⟩
      exact ((hagrees .start hself).trans (hself.spaced spelled)).finish
  · intro value file span
    have hvalue := tokenize_of_spells (Lexeme.spells_quoted true value.toList) file span
    rw [String.ofList_toList] at hvalue
    exact hvalue

/-- A binary and a unary sign, a comment, an unknown escape and a quote in a string. -/
theorem tokenize_spelled_signs :
    ∃ tokens again, (Source.ofText "x-1 // é\n-'\\q'+\"\\\"\\t\"").tokenize = .ok tokens ∧
      String.intercalate " " (tokens.dropLast.map Token.spelling) = "x - 1 \n $- '\\q' + \"\\\"\t\"" ∧
      (Source.ofText "x - 1 \n $- '\\q' + \"\\\"\t\"").tokenize = .ok again ∧
      again.map Token.content = tokens.map Token.content := by
  have htokens : (Source.ofText "x-1 // é\n-'\\q'+\"\\\"\\t\"").tokenize =
      .ok [⟨.name, "x", ⟨0, 1, "shell"⟩⟩, ⟨.operator, "-", ⟨1, 2, "shell"⟩⟩, ⟨.int, "1", ⟨2, 3, "shell"⟩⟩,
        ⟨.newline, "\n", ⟨9, 10, "shell"⟩⟩, ⟨.operator, "$-", ⟨10, 11, "shell"⟩⟩, ⟨.char, "\\q", ⟨11, 15, "shell"⟩⟩,
        ⟨.operator, "+", ⟨15, 16, "shell"⟩⟩, ⟨.string, "\"\t", ⟨16, 22, "shell"⟩⟩,
        ⟨.eof, "EOF", ⟨22, 22, "shell"⟩⟩] := by decide +kernel
  obtain ⟨again, hagain, hcontent⟩ := tokenize_spelled.1 _ _ "shell" htokens
  exact ⟨_, again, htokens, by decide, hagain, hcontent⟩

end GradualScript
