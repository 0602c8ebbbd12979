import GradualScript.Proofs.Cursor.Placing
import GradualScript.Proofs.Program.Tree

/-!
# First and last tokens of expressions

* `Ended` : tokens whose last one ends an operand, as the last one of an expression does (`ended_phrase`);
* `Started` : tokens whose first one starts an operand, as the first one of an expression does (`started_phrase`).
-/

set_option autoImplicit false

namespace GradualScript

open Cursor

/-! ## The last token -/

/-- The last of the tokens ends an operand. -/
def Ended (tokens : List Token) : Prop :=
  ∃ init last, tokens = init ++ [last] ∧ last.kind ≠ .newline ∧ endsOperand last = true

theorem Ended.append {tokens : List Token} (h : Ended tokens) (init : List Token) : Ended (init ++ tokens) := by
  obtain ⟨rest, last, rfl, hlast⟩ := h
  exact ⟨init ++ rest, last, (List.append_assoc _ _ _).symm, hlast⟩

theorem Ended.cons {tokens : List Token} (h : Ended tokens) (token : Token) : Ended (token :: tokens) :=
  h.append [token]

theorem Ended.length_pos {tokens : List Token} (h : Ended tokens) : 0 < tokens.length := by
  obtain ⟨init, last, rfl, -⟩ := h
  simp

/-- The token before the cursor when the tokens have been read. -/
theorem Ended.find? {tokens : List Token} (h : Ended tokens) (before : List Token) :
    ∃ previous, (tokens.reverse ++ before).find? (·.kind ≠ .newline) = some previous ∧
      endsOperand previous = true := by
  obtain ⟨init, last, rfl, hnewline, hends⟩ := h
  refine ⟨last, ?_, hends⟩
  rw [List.reverse_append, List.reverse_singleton, List.cons_append, List.nil_append, List.cons_append]
  exact List.find?_cons_of_pos (by simpa using hnewline)

/-- An expression ends behind its tokens, where others follow that end it. -/
theorem Ended.boundary {tokens following : List Token} (h : Ended tokens) (hstops : Stops following)
    (before : List Token) : (onto (tokens.reverse ++ before) following).boundary before.length true = .ends := by
  obtain ⟨previous, hprevious, hends⟩ := h.find? before
  refine boundary_onto_of_stops hstops ?_ hprevious hends
  have hpos := h.length_pos
  simp
  omega

theorem ended_singleton {token : Token} (h : token.kind.isObject = true ∨ token.kind.isClosing = true) :
    Ended [token] := by
  refine ⟨[], token, rfl, ?_, ?_⟩
  · rintro hkind
    rw [hkind] at h
    rcases h with h | h <;> cases h
  · rcases h with h | h
    · rw [endsOperand, h]
      rfl
    · rw [endsOperand, h, Bool.or_true]
      rfl

theorem ended_closing {token : Token} (h : token.face = .mark (.closing .round)) : Ended [token] :=
  ended_singleton (.inr (by rw [Token.kind_of_face h]; rfl))

mutual

theorem ended_term : ∀ (term : Term) {tokens : List Token}, tokens.map Token.face = term.faces → Ended tokens
  | .literal literal, _, h => by
    obtain ⟨token, rfl, htoken⟩ := List.map_eq_singleton_iff.1 h
    refine ended_singleton (.inl ?_)
    rw [Token.kind_of_face htoken, TokenKind.isObject, literal.isLiteral, Bool.or_true]
  | .name name, _, h => by
    obtain ⟨token, rfl, htoken⟩ := List.map_eq_singleton_iff.1 h
    exact ended_singleton (.inl (by rw [Token.kind_of_face htoken]; rfl))
  | .call function arguments, _, h => by
    obtain ⟨name, _, rfl, -, h⟩ := List.map_eq_cons_iff.1 h
    obtain ⟨opening, _, rfl, -, h⟩ := List.map_eq_cons_iff.1 h
    obtain ⟨values, _, rfl, -, h⟩ := List.map_eq_append_iff.1 h
    obtain ⟨closing, rfl, hclosing⟩ := List.map_eq_singleton_iff.1 h
    exact (((ended_closing hclosing).append values).cons opening).cons name
  | .paren inner, _, h => by
    obtain ⟨opening, _, rfl, -, h⟩ := List.map_eq_cons_iff.1 h
    obtain ⟨values, _, rfl, -, h⟩ := List.map_eq_append_iff.1 h
    obtain ⟨closing, rfl, hclosing⟩ := List.map_eq_singleton_iff.1 h
    exact ((ended_closing hclosing).append values).cons opening
  | .unary op operand, _, h => by
    obtain ⟨operator, _, rfl, -, h⟩ := List.map_eq_cons_iff.1 h
    exact (ended_term operand h).cons operator
  | .binary op left right, _, h => by
    obtain ⟨before, _, rfl, -, h⟩ := List.map_eq_append_iff.1 h
    obtain ⟨operator, _, rfl, -, h⟩ := List.map_eq_cons_iff.1 h
    exact ((ended_term right h).cons operator).append before

theorem ended_phrase : ∀ (phrase : Phrase) {tokens : List Token}, tokens.map Token.face = phrase.faces → Ended tokens
  | .term term, _, h => ended_term term h
  | .assignment name value, _, h => by
    obtain ⟨target, _, rfl, -, h⟩ := List.map_eq_cons_iff.1 h
    obtain ⟨sign, _, rfl, -, h⟩ := List.map_eq_cons_iff.1 h
    exact ((ended_phrase value h).cons sign).cons target
  | .ternary condition positive negative, _, h => by
    obtain ⟨keyword, _, rfl, -, h⟩ := List.map_eq_cons_iff.1 h
    obtain ⟨opening, _, rfl, -, h⟩ := List.map_eq_cons_iff.1 h
    obtain ⟨conditions, _, rfl, -, h⟩ := List.map_eq_append_iff.1 h
    obtain ⟨closing, _, rfl, -, h⟩ := List.map_eq_cons_iff.1 h
    obtain ⟨positives, _, rfl, -, h⟩ := List.map_eq_append_iff.1 h
    obtain ⟨alternative, _, rfl, -, h⟩ := List.map_eq_cons_iff.1 h
    exact ((((((ended_phrase negative h).cons alternative).append positives).cons closing).append conditions).cons
      opening).cons keyword

end

/-! ## The first token -/

/-- The first of the tokens starts an operand. -/
def Started (tokens : List Token) : Prop :=
  ∃ first rest, tokens = first :: rest ∧ startsOperand first = true ∧ first.kind ≠ .opening .square

theorem Started.append {tokens : List Token} (h : Started tokens) (others : List Token) :
    Started (tokens ++ others) := by
  obtain ⟨first, rest, rfl, hfirst⟩ := h
  exact ⟨first, rest ++ others, rfl, hfirst⟩

theorem Started.head_ne_newline {tokens : List Token} (h : Started tokens) {token : Token}
    (hhead : tokens.head? = some token) : token.kind ≠ .newline := by
  obtain ⟨first, rest, rfl, hstarts, -⟩ := h
  cases hhead
  exact (ne_of_startsOperand hstarts).1

variable {registry : Registry}

theorem started_term : ∀ (term : Term) {tokens : List Token}, term.Valid registry →
    tokens.map Token.face = term.faces → Started tokens
  | .literal literal, _, _, h => by
    obtain ⟨token, rfl, htoken⟩ := List.map_eq_singleton_iff.1 h
    have hobject : token.kind.isObject = true := by
      rw [Token.kind_of_face htoken, TokenKind.isObject, literal.isLiteral, Bool.or_true]
    refine ⟨token, [], rfl, startsOperand_of_isObject hobject, fun hkind => ?_⟩
    rw [hkind] at hobject
    cases hobject
  | .name name, _, _, h => by
    obtain ⟨token, rfl, htoken⟩ := List.map_eq_singleton_iff.1 h
    have hkind := Token.kind_of_face htoken
    exact ⟨token, [], rfl, startsOperand_of_isObject (by rw [hkind]; rfl), by rw [hkind]; exact TokenKind.noConfusion⟩
  | .call function arguments, _, _, h => by
    obtain ⟨token, rest, rfl, htoken, -⟩ := List.map_eq_cons_iff.1 h
    have hkind := Token.kind_of_face htoken
    exact ⟨token, rest, rfl, startsOperand_of_isObject (by rw [hkind]; rfl),
      by rw [hkind]; exact TokenKind.noConfusion⟩
  | .paren inner, _, _, h => by
    obtain ⟨token, rest, rfl, htoken, -⟩ := List.map_eq_cons_iff.1 h
    have hkind : token.kind = .opening .round := Token.kind_of_face htoken
    exact ⟨token, rest, rfl, by rw [startsOperand, hkind]; rfl, by simp [hkind]⟩
  | .unary op operand, _, hvalid, h => by
    obtain ⟨token, rest, rfl, htoken, -⟩ := List.map_eq_cons_iff.1 h
    have hkind : token.kind = .operator := Token.kind_of_face htoken
    refine ⟨token, rest, rfl, ?_, by simp [hkind]⟩
    rw [startsOperand_operator hkind (Token.text_of_face htoken rfl)]
    exact hvalid.1
  | .binary op left right, _, hvalid, h => by
    obtain ⟨lefts, rest, rfl, hleft, -⟩ := List.map_eq_append_iff.1 h
    exact (started_term left hvalid.2.2.2.1 hleft).append rest

theorem started_phrase : ∀ (phrase : Phrase) {tokens : List Token}, phrase.Valid registry →
    tokens.map Token.face = phrase.faces → Started tokens
  | .term term, _, hvalid, h => started_term term hvalid h
  | .assignment name value, _, _, h => by
    obtain ⟨token, rest, rfl, htoken, -⟩ := List.map_eq_cons_iff.1 h
    have hkind := Token.kind_of_face htoken
    exact ⟨token, rest, rfl, startsOperand_of_isObject (by rw [hkind]; rfl),
      by rw [hkind]; exact TokenKind.noConfusion⟩
  | .ternary condition positive negative, _, _, h => by
    obtain ⟨token, rest, rfl, htoken, -⟩ := List.map_eq_cons_iff.1 h
    have hkind : token.kind = .keyword := Token.kind_of_face htoken
    exact ⟨token, rest, rfl, startsOperand_of_keyword hkind, by simp [hkind]⟩

/-- Arguments do not begin with a line break. -/
theorem arguments_head_ne : ∀ (arguments : List Phrase) {tokens : List Token}, argumentsValid registry arguments →
    tokens.map Token.face = argumentFaces arguments → ∀ token, tokens.head? = some token → token.kind ≠ .newline
  | [], _, _, h, _, hhead => by
    obtain rfl := List.map_eq_nil_iff.1 h
    cases hhead
  | [last], _, hvalid, h, _, hhead => (started_phrase last hvalid.1 h).head_ne_newline hhead
  | first :: second :: rest, _, hvalid, h, _, hhead => by
    obtain ⟨values, others, rfl, hfirst, -⟩ := List.map_eq_append_iff.1 h
    exact ((started_phrase first hvalid.1 hfirst).append others).head_ne_newline hhead

end GradualScript
