import GradualScript.Proofs.Token.Lossless

/-!
# Line breaks between tokens

A line break that is put between two lexemes is one more token, and moves all tokens behind it. Whether a sign is unary
does not change, if no bracket is open or if the innermost one is round.

* `Token.shift` : a token as it stands so many bytes further on;
* `Lexing.Broken` : two readings of one text, the second of which has read a line break before it (`Broken.foldl`);
* `Lexing.opened_foldl`, `countP_newline_foldl` : the brackets and the lines of the tokens read so far;
* `tokenize_break` : the tokens of two texts with a line break between them.
-/

set_option autoImplicit false

namespace GradualScript

open Lexeme (byteSize byteSize_append)

/-! ## Tokens further on -/

/-- The span `n` bytes further on. -/
def Span.shift (n : Nat) (span : Span) : Span :=
  ⟨(span.start + n) % offsetLimit, (span.stop + n) % offsetLimit, span.file⟩

theorem Span.shift_ofBytes (n offset size : Nat) (file : String) :
    (ofBytes offset size file).shift n = ofBytes (offset + n) size file := by
  have hstop : offset + n + size = offset + size + n := by omega
  rw [shift, ofBytes, ofBytes, Nat.mod_add_mod, Nat.mod_add_mod, hstop]

/-- The span is moved by `n` if it still fits into 32 bits there. -/
theorem Span.shift_of_lt {n : Nat} {span : Span} (hstart : span.start + n < offsetLimit)
    (hstop : span.stop + n < offsetLimit) : span.shift n = ⟨span.start + n, span.stop + n, span.file⟩ := by
  rw [shift, Nat.mod_eq_of_lt hstart, Nat.mod_eq_of_lt hstop]

/-- What a token says, wherever it stands. -/
def Token.content (token : Token) : TokenKind × String :=
  (token.kind, token.text)

/-- The token `n` bytes further on. -/
def Token.shift (n : Nat) (token : Token) : Token :=
  { token with span := token.span.shift n }

/-- The nearest token that is no line break says the same further on. -/
theorem Token.find?_shift (n : Nat) (tokens : List Token) :
    (tokens.map (shift n)).find? (·.kind ≠ .newline) = (tokens.find? (·.kind ≠ .newline)).map (shift n) := by
  rw [List.find?_map]
  rfl

namespace Lexing

variable {file : String} {lexing other : Lexing}

/-! ## A line break before a text -/

/-- A sign is unary or not by what the token before it says. -/
theorem expectsOperand_congr (h : lexing.previous?.map Token.content = other.previous?.map Token.content) :
    lexing.expectsOperand = other.expectsOperand := by
  unfold expectsOperand
  generalize lexing.previous? = p, other.previous? = q at h
  rcases p with _ | ⟨kind, text, span⟩
  · rcases q with _ | token
    · rfl
    · cases h
  · rcases q with _ | ⟨kind', text', span'⟩
    · cases h
    · cases h
      rfl

/-- Two readings of one text. The first began with the tokens `base`. The second began with a line break behind the
tokens `under`, `n` bytes further on. -/
structure Broken (n : Nat) (base : List Token) (lineBreak : Token) (under : List Token) (lexing other : Lexing) :
    Prop where
  offset : other.offset = lexing.offset + n
  opened : other.opened = lexing.opened
  /-- The tokens read since are the same, and the token that decides about a sign is one of them, or is `base` under the
  line break too, or is missing in the first reading where it is the line break in the second. -/
  tokens : ∃ new : List Token, lexing.tokens = new ++ base ∧
    other.tokens = new.map (Token.shift n) ++ lineBreak :: under ∧
    (base = under ∨ (lexing.opened ≠ [] → ∃ token ∈ new, token.kind ≠ .newline)) ∧
    (base = [] ∨ (new = [] → lexing.opened.head? = some .round))

namespace Broken

variable {n : Nat} {base under : List Token} {lineBreak : Token}

/-- Both readings take a sign that comes next for unary, or both for binary. -/
theorem expectsOperand (h : Broken n base lineBreak under lexing other) (hbreak : lineBreak.kind = .newline) :
    other.expectsOperand = lexing.expectsOperand := by
  obtain ⟨new, htokens, htokens', hround, hplain⟩ := h.tokens
  by_cases hhead : lexing.opened.head? = some .round
  · apply expectsOperand_congr
    have hskip : (lineBreak :: under).find? (·.kind ≠ .newline) = under.find? (·.kind ≠ .newline) :=
      List.find?_cons_of_neg (by simp [hbreak])
    rw [previous?, previous?, h.opened, if_pos hhead, if_pos hhead, htokens, htokens', List.find?_append,
      List.find?_append, Token.find?_shift, hskip]
    cases hfind : new.find? (·.kind ≠ .newline) with
    | some token => rfl
    | none =>
      have hopened : lexing.opened ≠ [] := by
        rintro hnil
        rw [hnil] at hhead
        cases hhead
      have hbase : base = under := by
        refine hround.resolve_right fun hsome => ?_
        obtain ⟨token, hmem, hkind⟩ := hsome hopened
        exact List.find?_eq_none.1 hfind token hmem (decide_eq_true hkind)
      rw [hbase]
      rfl
  · cases new with
    | nil =>
      obtain rfl : base = [] := hplain.resolve_right fun hnil => hhead (hnil rfl)
      rw [Lexing.expectsOperand, Lexing.expectsOperand, previous?, previous?, h.opened, if_neg hhead, if_neg hhead,
        htokens, htokens']
      simp [Token.isKeywordOf, TokenKind.isObject, TokenKind.isLiteral, TokenKind.isClosing, hbreak]
    | cons token new =>
      apply expectsOperand_congr
      rw [previous?, previous?, h.opened, if_neg hhead, if_neg hhead, htokens, htokens']
      rfl

/-- A lexeme is read alike. -/
theorem read (h : Broken n base lineBreak under lexing other) (hbreak : lineBreak.kind = .newline) (lexeme : Lexeme) :
    Broken n base lineBreak under (lexing.read file lexeme) (other.read file lexeme) := by
  have hunary := h.expectsOperand hbreak
  obtain ⟨new, htokens, htokens', hround, hplain⟩ := h.tokens
  have hoffset : other.offset + byteSize lexeme.chars = lexing.offset + byteSize lexeme.chars + n := by
    rw [h.offset]
    omega
  unfold Lexing.read
  rw [hunary]
  dsimp only
  cases lexeme.reading? lexing.expectsOperand with
  | none => exact ⟨hoffset, h.opened, new, htokens, htokens', hround, hplain⟩
  | some reading =>
    obtain ⟨kind, text⟩ := reading
    refine ⟨hoffset, congrArg (track · kind) h.opened, _ :: new, congrArg (_ :: ·) htokens, ?_, ?_, .inr nofun⟩
    · rw [List.map_cons, Token.shift, Span.shift_ofBytes, h.offset, htokens']
      rfl
    · by_cases hkind : kind = .newline
      · subst hkind
        refine hround.imp_right fun hsome hopened => ?_
        obtain ⟨token, hmem, htoken⟩ := hsome hopened
        exact ⟨token, List.mem_cons_of_mem _ hmem, htoken⟩
      · exact .inr fun _ => ⟨_, List.mem_cons_self, hkind⟩

theorem foldl (file : String) (h : Broken n base lineBreak under lexing other) (hbreak : lineBreak.kind = .newline)
    (lexemes : List Lexeme) :
    Broken n base lineBreak under (lexemes.foldl (Lexing.read file) lexing)
      (lexemes.foldl (Lexing.read file) other) := by
  induction lexemes generalizing lexing other with
  | nil => exact h
  | cons lexeme lexemes ih => exact ih (h.read hbreak lexeme)

/-- The tokens at the end: the break stands behind those under it, and all behind it are further on. -/
theorem finish (file : String) (h : Broken n base lineBreak under lexing other) :
    ∃ later, lexing.finish file = base.reverse ++ later ∧
      other.finish file = under.reverse ++ lineBreak :: later.map (Token.shift n) := by
  obtain ⟨new, htokens, htokens', -, -⟩ := h.tokens
  refine ⟨new.reverse ++ [⟨.eof, "EOF", .ofBytes lexing.offset 0 file⟩], ?_, ?_⟩
  · rw [Lexing.finish, htokens, List.reverse_cons, List.reverse_append, List.append_assoc]
  · rw [Lexing.finish, htokens', List.reverse_cons, List.reverse_append, List.reverse_cons, List.map_append,
      List.map_reverse, h.offset, List.append_assoc, List.append_assoc]
    simp only [List.singleton_append, List.map_cons, List.map_nil, Token.shift, Span.shift_ofBytes]

end Broken

/-! ## Brackets and lines of what has been read -/

/-- The brackets that are open are those that the tokens leave open. -/
theorem opened_foldl (file : String) (lexing : Lexing) (lexemes : List Lexeme)
    (h : lexing.opened = (lexing.tokens.reverse.map Token.kind).foldl track []) :
    (lexemes.foldl (read file) lexing).opened =
      ((lexemes.foldl (read file) lexing).tokens.reverse.map Token.kind).foldl track [] := by
  induction lexemes generalizing lexing with
  | nil => exact h
  | cons lexeme lexemes ih =>
    apply ih
    unfold read
    dsimp only
    cases lexeme.reading? lexing.expectsOperand with
    | none => exact h
    | some reading =>
      dsimp only
      rw [List.reverse_cons, List.map_append, List.foldl_append, ← h]
      rfl

/-- The bytes that have been read are those of the lexemes. -/
theorem offset_foldl (lexemes : List Lexeme) :
    (lexemes.foldl (read file) lexing).offset = lexing.offset + byteSize (lexemes.flatMap Lexeme.chars) := by
  induction lexemes generalizing lexing with
  | nil => rfl
  | cons lexeme lexemes ih =>
    have hread : (lexing.read file lexeme).offset = lexing.offset + byteSize lexeme.chars := by
      unfold read
      dsimp only
      cases lexeme.reading? lexing.expectsOperand with
      | none => rfl
      | some reading => rfl
    rw [List.foldl_cons, ih, hread, List.flatMap_cons, byteSize_append, Nat.add_assoc]

end Lexing

/-- A lexeme becomes a line break exactly if it ends a line. -/
theorem Lexeme.isLineBreak_of_formed {lexeme : Lexeme} (hformed : Formed lexeme) (unary : Bool) :
    lexeme.isLineBreak = ((lexeme.reading? unary).any fun reading => reading.1 = .newline) := by
  cases hformed with
  | word =>
    rw [reading?, Option.any_some]
    unfold wordKind
    split
    · rfl
    · split
      · rfl
      · rfl
  | integer =>
    rw [reading?, Option.any_some]
    dsimp only
    split
    · rfl
    · rfl
  | fraction =>
    rw [reading?, Option.any_some]
    dsimp only
    split
    · rfl
    · rfl
  | blanks => rfl
  | quoted => rfl
  | escapedChar => rfl
  | plainChar => rfl
  | comment => rfl
  | markedSign => rfl
  | sign => rfl
  | @fixed kind spelling hmem =>
    have hall : ∀ entry ∈ Pattern.table.filterMap Pattern.spelling?,
        decide (Pattern.fixed entry.1 entry.2 = .fixed .newline ['\n']) = decide (entry.1 = .newline) := by decide
    exact hall _ (Pattern.mem_spellings hmem)

/-- There are as many line breaks among the tokens as among the lexemes. -/
theorem Lexing.countP_newline_foldl (file : String) (lexing : Lexing) {lexemes : List Lexeme}
    (hformed : ∀ lexeme ∈ lexemes, Lexeme.Formed lexeme) :
    (lexemes.foldl (read file) lexing).tokens.countP (·.kind = .newline) =
      lexing.tokens.countP (·.kind = .newline) + lexemes.countP Lexeme.isLineBreak := by
  induction lexemes generalizing lexing with
  | nil => rfl
  | cons lexeme lexemes ih =>
    obtain ⟨hfirst, hrest⟩ := List.forall_mem_cons.1 hformed
    rw [List.foldl_cons, ih _ hrest, List.countP_cons, Lexeme.isLineBreak_of_formed hfirst lexing.expectsOperand]
    unfold read
    dsimp only
    cases lexeme.reading? lexing.expectsOperand with
    | none => rfl
    | some reading =>
      simp only [List.countP_cons, Option.any_some]
      omega

/-! ## Two texts and a line break -/

theorem Lexeme.formed_of_split {cs far : List Char} {lexemes : List Lexeme} (h : split cs = (lexemes, far)) :
    ∀ lexeme ∈ lexemes, Formed lexeme := by
  induction lexemes generalizing cs with
  | nil => nofun
  | cons lexeme lexemes ih =>
    obtain ⟨rest, hfirst, hsplit⟩ := first?_of_split h
    exact List.forall_mem_cons.2 ⟨(formed_of_first? hfirst).1, ih hsplit⟩

theorem Lexeme.chars_of_split {cs : List Char} {lexemes : List Lexeme} (h : split cs = (lexemes, [])) :
    lexemes.flatMap chars = cs := by
  have happend := split_append cs
  rw [h, List.append_nil] at happend
  exact happend

/-- A source that is accepted is a row of lexemes. -/
theorem Source.exists_of_tokenize {source : Source} {tokens : List Token} (h : source.tokenize = .ok tokens) :
    ∃ lexemes, Lexeme.split source.text.toList = (lexemes, []) ∧
      tokens = (lexemes.foldl (Lexing.read source.file) .start).finish source.file := by
  unfold tokenize at h
  split at h
  · rename_i lexemes hsplit
    cases h
    exact ⟨lexemes, hsplit, rfl⟩
  · cases h

theorem Tiled.span_le {file : String} {offset : Nat} {text : List Char} {tokens : List Token}
    (h : Tiled file offset text tokens) :
    ∀ token ∈ tokens, token.span.start ≤ offset + byteSize text ∧ token.span.stop ≤ offset + byteSize text ∧
      token.span.file = file := by
  induction h with
  | stop offset => simp [byteSize]
  | gap _ _ ih =>
    intro token hmem
    obtain ⟨hstart, hstop, hfile⟩ := ih token hmem
    rw [byteSize_append]
    exact ⟨by omega, by omega, hfile⟩
  | token _ _ hspan _ _ ih =>
    intro token hmem
    rw [byteSize_append]
    rcases List.mem_cons.1 hmem with rfl | hmem
    · rw [hspan]
      dsimp only
      exact ⟨by omega, by omega, rfl⟩
    · obtain ⟨hstart, hstop, hfile⟩ := ih token hmem
      exact ⟨by omega, by omega, hfile⟩

/-- The spans of the tokens of a short source lie within it. -/
theorem span_le_of_tokenize {source : Source} {tokens : List Token}
    (hsize : source.text.utf8ByteSize < Span.offsetLimit) (h : source.tokenize = .ok tokens) :
    ∀ token ∈ tokens, token.span.start ≤ source.text.utf8ByteSize ∧ token.span.stop ≤ source.text.utf8ByteSize ∧
      token.span.file = source.file := by
  obtain ⟨lexemes, hsplit, rfl⟩ := Source.exists_of_tokenize h
  rw [← Text.byteSize_toList] at hsize ⊢
  obtain ⟨tokens, hfinish, htiled⟩ := tiled_of_split source.file source.text.toList .start (by rw [hsplit])
    (by rw [Lexing.start, Nat.zero_add]; exact hsize)
  rw [hsplit] at hfinish
  dsimp only at hfinish
  rw [hfinish]
  simpa [Lexing.start] using htiled.span_le

namespace Lexing

variable {file : String} {lexing : Lexing}

theorem read_lineBreak (file : String) (lexing : Lexing) :
    lexing.read file Lexeme.lineBreak =
      ⟨⟨.newline, "\n", .ofBytes lexing.offset 1 file⟩ :: lexing.tokens, lexing.offset + 1, lexing.opened⟩ :=
  rfl

theorem dropLast_finish : (lexing.finish file).dropLast = lexing.tokens.reverse := by
  rw [finish, List.reverse_cons, List.dropLast_concat]

theorem opened_of_finish (lexemes : List Lexeme) (hlexing : lexemes.foldl (read file) .start = lexing) :
    ((lexing.finish file).map Token.kind).foldl track [] = lexing.opened := by
  have hopened := opened_foldl file .start lexemes rfl
  rw [hlexing] at hopened
  rw [finish, List.reverse_cons, List.map_append, List.foldl_append, hopened]
  rfl

/-- Where all brackets are closed, a text behind a line break is read as if it stood alone. -/
theorem broken_start (file : String) (h : lexing.opened = []) :
    Broken (lexing.offset + 1) [] ⟨.newline, "\n", .ofBytes lexing.offset 1 file⟩ lexing.tokens .start
      (lexing.read file Lexeme.lineBreak) := by
  rw [read_lineBreak]
  exact ⟨by rw [start, Nat.zero_add], h, [], rfl, rfl, .inr fun hopened => absurd rfl hopened, .inl rfl⟩

end Lexing

/-- A line break behind an accepted text, and what is split behind it. -/
theorem Lexeme.split_of_lineBreak {a : String} {earlier : List Lexeme} (h : split a.toList = (earlier, []))
    (b : String) :
    split (a ++ "\n" ++ b).toList = (earlier ++ lineBreak :: (split b.toList).1, (split b.toList).2) := by
  have htext : (a ++ "\n" ++ b).toList = earlier.flatMap chars ++ '\n' :: b.toList := by
    rw [String.toList_append, String.toList_append, chars_of_split h, List.append_assoc]
    rfl
  rw [htext]
  exact split_break (by rw [h, List.append_nil]) b.toList

/-- A text that is accepted and closes its brackets can be followed by any text on a new line. The tokens or the error
of that text are the same but for their places. -/
theorem tokenize_break {a file : String} {tokens : List Token} (b : String)
    (h : (Source.mk a file).tokenize = .ok tokens)
    (hclosed : (tokens.map Token.kind).foldl Lexing.track [] = []) :
    ((Source.mk (a ++ "\n" ++ b) file).tokenize =
      match (Source.mk b file).tokenize with
      | .ok later => .ok (tokens.dropLast ++ ⟨.newline, "\n", .ofBytes a.utf8ByteSize 1 file⟩ ::
          later.map (Token.shift (a.utf8ByteSize + 1)))
      | .error error => .error (error.rebase (tokens.countP (·.kind = .newline) + 1))) ∧
    ∀ later, (Source.mk b file).tokenize = .ok later → a.utf8ByteSize + 1 + b.utf8ByteSize < Span.offsetLimit →
      ∀ token ∈ later, (token.shift (a.utf8ByteSize + 1)).span =
        ⟨token.span.start + (a.utf8ByteSize + 1), token.span.stop + (a.utf8ByteSize + 1), file⟩ := by
  obtain ⟨earlier, hsplit, rfl⟩ := Source.exists_of_tokenize h
  dsimp only at hsplit hclosed ⊢
  constructor
  · generalize hlexing : earlier.foldl (Lexing.read file) .start = lexing at hclosed ⊢
    have hoffset : lexing.offset = a.utf8ByteSize := by
      rw [← hlexing, Lexing.offset_foldl, Lexeme.chars_of_split hsplit, Text.byteSize_toList]
      exact Nat.zero_add _
    rw [Lexing.opened_of_finish earlier hlexing] at hclosed
    have hcount : (lexing.finish file).countP (·.kind = .newline) = earlier.countP Lexeme.isLineBreak := by
      have htokens := Lexing.countP_newline_foldl file .start (Lexeme.formed_of_split hsplit)
      rw [hlexing] at htokens
      rw [Lexing.finish, List.countP_reverse, List.countP_cons_of_neg (by simp), htokens]
      exact Nat.zero_add _
    unfold Source.tokenize
    dsimp only
    rw [Lexeme.split_of_lineBreak hsplit b]
    rcases Lexeme.split b.toList with ⟨later, _ | ⟨c, rest⟩⟩
    · obtain ⟨tokens, hfinish, hfinish'⟩ := ((Lexing.broken_start file hclosed).foldl file rfl later).finish file
      dsimp only
      rw [List.foldl_append, hlexing, List.foldl_cons, hfinish', hfinish, Lexing.dropLast_finish, hoffset]
      rfl
    · have hlines : (earlier ++ Lexeme.lineBreak :: later).countP Lexeme.isLineBreak =
          later.countP Lexeme.isLineBreak + (earlier.countP Lexeme.isLineBreak + 1) := by
        rw [List.countP_append, List.countP_cons_of_pos rfl]
        omega
      dsimp only
      rw [hcount, hlines]
      rfl
  · intro later hlater hsize token hmem
    obtain ⟨hstart, hstop, hfile⟩ := span_le_of_tokenize (by dsimp only; omega) hlater token hmem
    dsimp only at hstart hstop hfile
    rw [Token.shift, Span.shift_of_lt (by omega) (by omega), hfile]

/-- A sign at the start of a line is unary though a closing bracket stands before the break, and an error behind two
breaks is on the third line. -/
theorem tokenize_break_sign :
    (Source.mk ("(1)" ++ "\n" ++ "-2") "shell").tokenize =
        .ok [⟨.opening .round, "(", ⟨0, 1, "shell"⟩⟩, ⟨.int, "1", ⟨1, 2, "shell"⟩⟩,
          ⟨.closing .round, ")", ⟨2, 3, "shell"⟩⟩, ⟨.newline, "\n", ⟨3, 4, "shell"⟩⟩,
          ⟨.operator, "$-", ⟨4, 5, "shell"⟩⟩, ⟨.int, "2", ⟨5, 6, "shell"⟩⟩, ⟨.eof, "EOF", ⟨6, 6, "shell"⟩⟩] ∧
      (Source.mk ("(1)" ++ "\n" ++ "2\n?") "shell").tokenize = .error ⟨.unrecognisedToken "?", 2⟩ := by
  have hfirst : (Source.mk "(1)" "shell").tokenize =
      .ok [⟨.opening .round, "(", ⟨0, 1, "shell"⟩⟩, ⟨.int, "1", ⟨1, 2, "shell"⟩⟩,
        ⟨.closing .round, ")", ⟨2, 3, "shell"⟩⟩, ⟨.eof, "EOF", ⟨3, 3, "shell"⟩⟩] := by decide +kernel
  refine ⟨(tokenize_break "-2" hfirst rfl).1.trans ?_, (tokenize_break "2\n?" hfirst rfl).1.trans ?_⟩
  · decide +kernel
  · decide +kernel

end GradualScript
