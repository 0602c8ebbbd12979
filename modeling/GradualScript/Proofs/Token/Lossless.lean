import GradualScript.Proofs.Token.Shape

/-!
# Tokens hold all of the source

A text is read as a row of pieces. Each of them becomes a token, or is a run of blanks or a comment that only
separates tokens.

* `Text.cut?` : the text before, between and behind two byte offsets, if both lie between characters;
* `Token.StandsFor` : what a token says when it was read from a slice;
* `Separates` : a text of blanks and comments, with the text behind it;
* `Tiled` : a text as a row of such pieces, with the tokens that they become (`tiled_of_split`);
* `tokenize_lossless` : spans are in order and do not overlap, each token stands for the slice at its span, and what is
  outside of all spans only separates.
-/

set_option autoImplicit false

namespace GradualScript

open Lexeme (byteSize byteSize_append)

/-! ## Slices by bytes -/

namespace Text

/-- The first `n` bytes of a text and what is behind them, if they end between two characters. -/
def splitBytes? : Nat → List Char → Option (List Char × List Char)
  | 0, cs => some ([], cs)
  | _ + 1, [] => none
  | n + 1, c :: cs =>
    if c.utf8Size ≤ n + 1 then (splitBytes? (n + 1 - c.utf8Size) cs).map (Prod.map (c :: ·) id) else none

/-- The text before, between and behind two byte offsets, if both lie between characters. -/
def cut? (start stop : Nat) (text : List Char) : Option (List Char × List Char × List Char) := do
  let (before, rest) ← splitBytes? start text
  let (slice, behind) ← splitBytes? (stop - start) rest
  return (before, slice, behind)

theorem splitBytes?_append (cs rest : List Char) : splitBytes? (byteSize cs) (cs ++ rest) = some (cs, rest) := by
  induction cs with
  | nil => cases rest <;> rfl
  | cons c cs ih =>
    obtain ⟨n, hn⟩ := Nat.exists_eq_add_one.2 c.utf8Size_pos
    have hsize : byteSize (c :: cs) = n + byteSize cs + 1 := by
      rw [byteSize, hn]
      omega
    have hrest : n + byteSize cs + 1 - (n + 1) = byteSize cs := by omega
    rw [hsize, List.cons_append, splitBytes?, if_pos (by omega), hn, hrest, ih]
    rfl

theorem cut?_append (before slice rest : List Char) :
    cut? (byteSize before) (byteSize before + byteSize slice) (before ++ (slice ++ rest)) =
      some (before, slice, rest) := by
  rw [cut?, splitBytes?_append, Nat.add_sub_cancel_left]
  change (splitBytes? (byteSize slice) (slice ++ rest) >>= _) = _
  rw [splitBytes?_append]
  rfl

theorem byteSize_pos {cs : List Char} (h : cs ≠ []) : 0 < byteSize cs := by
  cases cs with
  | nil => exact absurd rfl h
  | cons c cs =>
    have := c.utf8Size_pos
    rw [byteSize]
    omega

theorem byteSize_toList (text : String) : byteSize text.toList = text.utf8ByteSize := by
  obtain ⟨cs, rfl⟩ : ∃ cs, text = String.ofList cs := ⟨text.toList, String.ofList_toList.symm⟩
  rw [String.toList_ofList]
  induction cs with
  | nil => rfl
  | cons c cs ih => rw [byteSize, ih, String.ofList_cons, String.utf8ByteSize_append, String.utf8ByteSize_singleton]

/-- The text is empty or begins with a line break. -/
def AtLineEnd (text : List Char) : Prop :=
  ∀ c, text.head? = some c → c = '\n'

end Text

open Text (cut? AtLineEnd)

/-! ## Tokens and separators -/

/-- A token that was read from the slice has this text. Quoted texts stand for what is between their quotes, a bare sign
may be marked as unary, and all else stands for itself. -/
def Token.StandsFor (token : Token) (slice : List Char) : Prop :=
  match token.kind with
  | .string => ∃ inner, slice = '"' :: (inner ++ ['"']) ∧ token.text = String.ofList (Lexeme.unescape inner)
  | .char => ∃ inner, slice = '\x27' :: (inner ++ ['\x27']) ∧ token.text = String.ofList (Lexeme.unescape inner)
  | .operator => token.text = String.ofList slice ∨
      (slice = ['+'] ∨ slice = ['-']) ∧ token.text = String.ofList ('$' :: slice)
  | _ => token.text = String.ofList slice

/-- The byte behind the last of the tokens, or the offset where there is none. -/
def Token.stopOf (offset : Nat) (tokens : List Token) : Nat :=
  (tokens.getLast?.map (·.span.stop)).getD offset

theorem Token.stopOf_cons (offset : Nat) (token : Token) (earlier : List Token) :
    stopOf offset (token :: earlier) = stopOf token.span.stop earlier := by
  rw [stopOf, stopOf, List.getLast?_cons]
  cases earlier.getLast? <;> rfl

/-- A run of blanks, or a comment that goes on to the end of its line, before the text `rest`. -/
inductive Separator : (piece rest : List Char) → Prop where
  | blanks {run rest : List Char} : run ≠ [] → (∀ c ∈ run, c = ' ' ∨ c = '\t' ∨ c = '\r') → Separator run rest
  | comment {body rest : List Char} : (∀ c ∈ body, c ≠ '\n') → AtLineEnd rest → Separator ('/' :: '/' :: body) rest

/-- A row of separators before the text `rest`. -/
inductive Separates : (gap rest : List Char) → Prop where
  | nothing (rest : List Char) : Separates [] rest
  | piece {piece gap rest : List Char} : Separator piece (gap ++ rest) → Separates gap rest →
      Separates (piece ++ gap) rest

namespace Lexeme

open Pattern (isGap isSign)

variable {rest : List Char} {lexeme : Lexeme}

theorem inner_quoted (quote : Char) (cs : List Char) : inner (quote :: (cs ++ [quote])) = cs := by
  rw [inner, List.drop_succ_cons, List.drop_zero, List.dropLast_concat]

/-- No fixed spelling of the language is that of a quoted text or of the end. -/
theorem kind_of_mem_table {kind : TokenKind} {spelling : List Char} (h : .fixed kind spelling ∈ Pattern.table) :
    kind ≠ .string ∧ kind ≠ .char ∧ kind ≠ .eof := by
  have hall : ∀ entry ∈ Pattern.table.filterMap Pattern.spelling?,
      entry.1 ≠ .string ∧ entry.1 ≠ .char ∧ entry.1 ≠ .eof := by decide
  exact hall _ (Pattern.mem_spellings h)

theorem standsFor_of_plain {token : Token} {slice : List Char} (hstring : token.kind ≠ .string)
    (hchar : token.kind ≠ .char) (htext : token.text = String.ofList slice) : token.StandsFor slice := by
  unfold Token.StandsFor
  split
  · exact absurd ‹_› hstring
  · exact absurd ‹_› hchar
  · exact .inl htext
  · exact htext

/-- What a lexeme is read as stands for the characters of the lexeme. -/
theorem standsFor_of_reading? {unary : Bool} {kind : TokenKind} {text : List Char} {span : Span}
    (hformed : Formed lexeme) (h : lexeme.reading? unary = some (kind, text)) :
    kind ≠ .eof ∧ (Token.mk kind (String.ofList text) span).StandsFor lexeme.chars := by
  cases hformed with
  | blanks => cases h
  | comment => cases h
  | @word c cs =>
    cases h
    have hkind : wordKind (String.ofList (c :: cs)) ∈ [TokenKind.bool, .keyword, .name] := by
      unfold wordKind
      grind
    have hplain : ∀ kind ∈ [TokenKind.bool, .keyword, .name], kind ≠ .string ∧ kind ≠ .char ∧ kind ≠ .eof := by decide
    obtain ⟨hstring, hchar, heof⟩ := hplain _ hkind
    exact ⟨heof, standsFor_of_plain hstring hchar rfl⟩
  | integer | fraction =>
    cases h
    split
    · exact ⟨nofun, rfl⟩
    · exact ⟨nofun, rfl⟩
  | @quoted inner =>
    cases h
    exact ⟨nofun, inner, rfl, by rw [inner_quoted]⟩
  | @escapedChar c =>
    cases h
    exact ⟨nofun, ['\\', c], rfl, rfl⟩
  | @plainChar c =>
    cases h
    exact ⟨nofun, [c], rfl, rfl⟩
  | markedSign =>
    cases h
    exact ⟨nofun, .inl rfl⟩
  | @sign c hsign =>
    cases h
    refine ⟨nofun, ?_⟩
    cases unary with
    | false => exact .inl rfl
    | true => exact .inr ⟨by simpa [isSign] using hsign, rfl⟩
  | fixed hmem =>
    cases h
    obtain ⟨hstring, hchar, heof⟩ := kind_of_mem_table hmem
    exact ⟨heof, standsFor_of_plain hstring hchar rfl⟩

/-- What a lexeme is read as no token for only separates. -/
theorem separator_of_reading? {unary : Bool} (hformed : Formed lexeme) (hparted : Parted lexeme rest)
    (h : lexeme.reading? unary = none) : Separator lexeme.chars rest := by
  cases hformed with
  | blanks hne hrun => exact .blanks hne fun c hc => by simpa [isGap, or_assoc] using hrun c hc
  | comment hbody =>
    refine .comment hbody fun c hc => ?_
    have hbreak := hparted.stops c hc
    simpa [goesOnWith] using hbreak
  | _ => cases h

end Lexeme

/-! ## A text in pieces -/

/-- A text from a byte offset on, as a row of pieces, with the tokens that they become. -/
inductive Tiled (file : String) : (offset : Nat) → (text : List Char) → (tokens : List Token) → Prop where
  | stop (offset : Nat) : Tiled file offset [] [⟨.eof, "EOF", ⟨offset, offset, file⟩⟩]
  | gap {offset : Nat} {piece rest : List Char} {tokens : List Token} : Separator piece rest →
      Tiled file (offset + byteSize piece) rest tokens → Tiled file offset (piece ++ rest) tokens
  | token {offset : Nat} {slice rest : List Char} {token : Token} {tokens : List Token} : slice ≠ [] →
      token.kind ≠ .eof → token.span = ⟨offset, offset + byteSize slice, file⟩ → token.StandsFor slice →
      Tiled file (offset + byteSize slice) rest tokens → Tiled file offset (slice ++ rest) (token :: tokens)

/-- Reading the lexemes of a text adds the tokens of its pieces to those that were read before. -/
theorem tiled_of_split (file : String) (text : List Char) (lexing : Lexing) (hend : (Lexeme.split text).2 = [])
    (hsize : lexing.offset + byteSize text < Span.offsetLimit) :
    ∃ tokens, ((Lexeme.split text).1.foldl (Lexing.read file) lexing).finish file = lexing.tokens.reverse ++ tokens ∧
      Tiled file lexing.offset text tokens := by
  fun_induction Lexeme.split text generalizing lexing with
  | case1 text hfirst =>
    obtain rfl : text = [] := hend
    refine ⟨_, ?_, .stop _⟩
    have hspan : Span.ofBytes lexing.offset 0 file = ⟨lexing.offset, lexing.offset, file⟩ :=
      Span.ofBytes_of_lt hsize file
    rw [List.foldl_nil, Lexing.finish, List.reverse_cons, hspan]
  | case2 text lexeme rest hfirst _ ih =>
    have hne := Lexeme.chars_ne_nil_of_first? hfirst
    obtain ⟨rfl, hformed, hparted⟩ := Lexeme.first?_iff.1 hfirst
    rw [byteSize_append, ← Nat.add_assoc] at hsize
    rw [Prod.map_fst, List.foldl_cons]
    cases hreading : lexeme.reading? lexing.expectsOperand with
    | none =>
      have hread : lexing.read file lexeme = { lexing with offset := lexing.offset + byteSize lexeme.chars } := by
        rw [Lexing.read, hreading]
      obtain ⟨tokens, hfinish, htiled⟩ := ih (lexing.read file lexeme) hend (by rw [hread]; exact hsize)
      rw [hread] at hfinish htiled
      rw [hread]
      exact ⟨tokens, hfinish, .gap (Lexeme.separator_of_reading? hformed hparted hreading) htiled⟩
    | some reading =>
      obtain ⟨kind, text⟩ := reading
      have hspan : Span.ofBytes lexing.offset (byteSize lexeme.chars) file =
          ⟨lexing.offset, lexing.offset + byteSize lexeme.chars, file⟩ := Span.ofBytes_of_lt (by omega) file
      have hread : lexing.read file lexeme =
          ⟨⟨kind, String.ofList text, ⟨lexing.offset, lexing.offset + byteSize lexeme.chars, file⟩⟩ :: lexing.tokens,
            lexing.offset + byteSize lexeme.chars, Lexing.track lexing.opened kind⟩ := by
        rw [Lexing.read, hreading, ← hspan]
      obtain ⟨tokens, hfinish, htiled⟩ := ih (lexing.read file lexeme) hend (by rw [hread]; exact hsize)
      rw [hread] at hfinish htiled
      obtain ⟨hkind, hstands⟩ := Lexeme.standsFor_of_reading? hformed hreading
      rw [hread]
      refine ⟨_ :: tokens, ?_, .token hne hkind rfl hstands htiled⟩
      rw [hfinish, List.reverse_cons, List.append_assoc, List.singleton_append]

namespace Tiled

variable {file : String} {offset : Nat} {text : List Char} {tokens : List Token}

theorem getLast? (h : Tiled file offset text tokens) :
    tokens.getLast? = some ⟨.eof, "EOF", ⟨offset + byteSize text, offset + byteSize text, file⟩⟩ := by
  induction h with
  | stop offset => rfl
  | gap _ _ ih => rw [ih, byteSize_append, Nat.add_assoc]
  | token _ _ _ _ _ ih => rw [List.getLast?_cons, ih, byteSize_append, Nat.add_assoc]; rfl

theorem offset_le_start (h : Tiled file offset text tokens) : ∀ token ∈ tokens, offset ≤ token.span.start := by
  induction h with
  | stop offset => simp
  | gap _ _ ih => exact fun token htoken => by have := ih token htoken; omega
  | token _ _ hspan _ _ ih =>
    intro token htoken
    rcases List.mem_cons.1 htoken with rfl | htoken
    · exact Nat.le_of_eq (congrArg Span.start hspan).symm
    · have := ih token htoken
      omega

/-- A token ends before the next one starts. -/
theorem ordered (h : Tiled file offset text tokens) :
    tokens.Pairwise fun token later => token.span.stop ≤ later.span.start := by
  induction h with
  | stop offset => exact List.pairwise_singleton _ _
  | gap _ _ ih => exact ih
  | token _ _ hspan _ htiled ih =>
    refine List.pairwise_cons.2 ⟨fun later hlater => ?_, ih⟩
    rw [hspan]
    exact htiled.offset_le_start later hlater

/-- Each token but the last stands for the slice at its span. -/
theorem slices (h : Tiled file offset text tokens) (before : List Char) (hbefore : byteSize before = offset) :
    ∀ token ∈ tokens.dropLast, token.kind ≠ .eof ∧ token.span.start < token.span.stop ∧
      ∃ read slice rest, cut? token.span.start token.span.stop (before ++ text) = some (read, slice, rest) ∧
        token.StandsFor slice := by
  induction h generalizing before with
  | stop offset => nofun
  | gap _ _ ih =>
    rw [← List.append_assoc]
    exact ih _ (by rw [byteSize_append, hbefore])
  | @token offset slice rest token tokens hne hkind hspan hstands htiled ih =>
    have htokens : tokens ≠ [] := by
      rintro rfl
      cases htiled.getLast?
    rw [List.dropLast_cons_of_ne_nil htokens]
    intro later hlater
    rcases List.mem_cons.1 hlater with rfl | hlater
    · refine ⟨hkind, ?_, before, slice, rest, ?_, hstands⟩
      · have := Text.byteSize_pos hne
        rw [hspan]
        change offset < offset + byteSize slice
        omega
      · rw [hspan, ← hbefore]
        exact Text.cut?_append before slice rest
    · rw [← List.append_assoc]
      exact ih _ (by rw [byteSize_append, hbefore]) later hlater

/-- Separators stand before the first token, and pieces again behind it. -/
theorem uncons {token : Token} (h : Tiled file offset text (token :: tokens)) :
    ∃ gap rest, text = gap ++ rest ∧ token.span.start = offset + byteSize gap ∧ Separates gap rest ∧
      (tokens ≠ [] → ∃ slice behind, rest = slice ++ behind ∧
        token.span.stop = token.span.start + byteSize slice ∧ Tiled file token.span.stop behind tokens) := by
  generalize hall : token :: tokens = all at h
  induction h with
  | stop offset =>
    cases hall
    exact ⟨[], [], rfl, rfl, .nothing _, fun hne => absurd rfl hne⟩
  | @gap offset piece rest all hpiece _ ih =>
    obtain ⟨gap, rest, rfl, hstart, hgap, hbehind⟩ := ih hall
    refine ⟨piece ++ gap, rest, (List.append_assoc ..).symm, ?_, .piece hpiece hgap, hbehind⟩
    rw [hstart, byteSize_append, Nat.add_assoc]
  | @token offset slice rest token all hne hkind hspan hstands htiled ih =>
    cases hall
    refine ⟨[], _, rfl, ?_, .nothing _, fun _ => ⟨slice, rest, rfl, ?_, ?_⟩⟩
    · rw [hspan]
      rfl
    · rw [hspan]
    · rw [hspan]
      exact htiled

/-- What is between a token and the one before it only separates. -/
theorem gaps {earlier later : List Token} {token : Token} (h : Tiled file offset text (earlier ++ token :: later))
    (before : List Char) (hbefore : byteSize before = offset) :
    ∃ read gap rest, cut? (Token.stopOf offset earlier) token.span.start (before ++ text) = some (read, gap, rest) ∧
      Separates gap rest := by
  induction earlier generalizing offset text before with
  | nil =>
    obtain ⟨gap, rest, rfl, hstart, hgap, -⟩ := h.uncons
    refine ⟨before, gap, rest, ?_, hgap⟩
    rw [hstart, ← hbefore]
    exact Text.cut?_append before gap rest
  | cons first earlier ih =>
    obtain ⟨gap, _, rfl, hstart, -, hbehind⟩ := h.uncons
    obtain ⟨slice, behind, rfl, hstop, htiled⟩ := hbehind (by simp)
    rw [Token.stopOf_cons, ← List.append_assoc, ← List.append_assoc]
    apply ih htiled
    rw [byteSize_append, byteSize_append, hbefore, hstop, hstart]

end Tiled

/-! ## Tokenization -/

/-- The tokens hold all of the source, in order and once. -/
structure Lossless (source : Source) (tokens : List Token) : Prop where
  /-- A token ends before the next one starts. -/
  ordered : tokens.Pairwise fun token later => token.span.stop ≤ later.span.start
  /-- The last token is the end of input, which is empty at the end of the source. -/
  last : tokens.getLast? =
    some ⟨.eof, "EOF", ⟨source.text.utf8ByteSize, source.text.utf8ByteSize, source.file⟩⟩
  /-- The other tokens are not empty and stand for the slices at their spans. -/
  slices : ∀ token ∈ tokens.dropLast, token.kind ≠ .eof ∧ token.span.start < token.span.stop ∧
    ∃ before slice behind, cut? token.span.start token.span.stop source.text.toList = some (before, slice, behind) ∧
      token.StandsFor slice
  /-- What is before the first token and between two tokens only separates. -/
  gaps : ∀ earlier token later, tokens = earlier ++ token :: later →
    ∃ before gap behind,
      cut? (Token.stopOf 0 earlier) token.span.start source.text.toList = some (before, gap, behind) ∧
        Separates gap behind

/-- Every source whose offsets fit into spans is held by its tokens. -/
theorem tokenize_lossless {source : Source} {tokens : List Token}
    (hsize : source.text.utf8ByteSize < Span.offsetLimit) (h : source.tokenize = .ok tokens) :
    Lossless source tokens := by
  rw [← Text.byteSize_toList] at hsize
  have hend : (Lexeme.split source.text.toList).2 = [] ∧
      ((Lexeme.split source.text.toList).1.foldl (Lexing.read source.file) .start).finish source.file = tokens := by
    unfold Source.tokenize at h
    split at h
    · rename_i lexemes hsplit
      cases h
      rw [hsplit]
      exact ⟨rfl, rfl⟩
    · cases h
  obtain ⟨tokens, hfinish, htiled⟩ :=
    tiled_of_split source.file source.text.toList .start hend.1 (by rw [Lexing.start, Nat.zero_add]; exact hsize)
  obtain rfl := hend.2.symm.trans hfinish
  exact
    { ordered := htiled.ordered
      last := by
        rw [← Text.byteSize_toList, ← Nat.zero_add (byteSize source.text.toList)]
        exact htiled.getLast?
      slices := htiled.slices [] rfl
      gaps := by
        rintro earlier token later heq
        exact Tiled.gaps (heq ▸ htiled) [] rfl }

/-- A unary and a binary sign, an escape, a comment, and characters of two bytes. -/
theorem tokenize_lossless_signs :
    (Source.ofText "-1 // é\n+\"ü\\n\"").tokenize =
        .ok [⟨.operator, "$-", ⟨0, 1, "shell"⟩⟩, ⟨.int, "1", ⟨1, 2, "shell"⟩⟩, ⟨.newline, "\n", ⟨8, 9, "shell"⟩⟩,
          ⟨.operator, "$+", ⟨9, 10, "shell"⟩⟩, ⟨.string, "ü\n", ⟨10, 16, "shell"⟩⟩, ⟨.eof, "EOF", ⟨16, 16, "shell"⟩⟩] ∧
      Lossless (Source.ofText "-1 // é\n+\"ü\\n\"")
        [⟨.operator, "$-", ⟨0, 1, "shell"⟩⟩, ⟨.int, "1", ⟨1, 2, "shell"⟩⟩, ⟨.newline, "\n", ⟨8, 9, "shell"⟩⟩,
          ⟨.operator, "$+", ⟨9, 10, "shell"⟩⟩, ⟨.string, "ü\n", ⟨10, 16, "shell"⟩⟩,
          ⟨.eof, "EOF", ⟨16, 16, "shell"⟩⟩] := by
  refine ⟨?_, tokenize_lossless (by decide) ?_⟩ <;> decide +kernel

/-- The end of input is empty, but it says `EOF`. -/
theorem end_not_standsFor :
    (Source.ofText "").tokenize = .ok [⟨.eof, "EOF", ⟨0, 0, "shell"⟩⟩] ∧
      cut? 0 0 (Source.ofText "").text.toList = some ([], [], []) ∧
      ¬ Token.StandsFor ⟨.eof, "EOF", ⟨0, 0, "shell"⟩⟩ [] :=
  ⟨by decide +kernel, by decide, show ¬ "EOF" = String.ofList [] by decide⟩

end GradualScript
