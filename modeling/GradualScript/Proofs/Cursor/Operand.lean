import GradualScript.Operator.Basic
import GradualScript.Proofs.Cursor.Moves

/-!
# Where an operand ends

* `Cursor.Terminated` : the tokens end with the end of input;
* `position_skipWhile`, `position_advance` : on such tokens no move is cut short at the last one, and the index goes up
  by the number of tokens that are passed;
* `Cursor.Guarded` : no operand can start at the cursor without being right behind another one;
* `guarded_of_ends`, `guarded_advance` : the cursor is guarded where an expression ended, and behind a token that
  ends an operand;
* `boundary_ne_inside` : an expression does not take in a new operand where the cursor is guarded;
* `Cursor.Completes` : the cursor moved on to a guarded place, as it does over a lambda (`completes_lambda`).
-/

set_option autoImplicit false

namespace GradualScript

namespace Cursor

variable {cursor later : Cursor} {first : Nat} {balanced : Bool}

/-! ## The end of input -/

/-- The last token is the end of input. -/
def Terminated (cursor : Cursor) : Prop :=
  cursor.tokens.getLast?.map Token.kind = some .eof

instance : DecidablePred Terminated := fun cursor =>
  inferInstanceAs (Decidable (cursor.tokens.getLast?.map Token.kind = some .eof))

theorem Terminated.ahead (h : cursor.Terminated) (hahead : cursor.Ahead later) : later.Terminated := by
  unfold Terminated
  rw [hahead.tokens]
  exact h

theorem tokens_of_ofTokens? {tokens : List Token} (h : ofTokens? tokens = some cursor) : cursor.tokens = tokens := by
  cases tokens with
  | nil => cases h
  | cons token rest =>
    rw [ofTokens?] at h
    split at h
    · cases h
      rfl
    · cases h

theorem terminated_of_ofTokens? {tokens : List Token} (h : ofTokens? tokens = some cursor) : cursor.Terminated := by
  cases tokens with
  | nil => cases h
  | cons token rest =>
    rw [ofTokens?] at h
    split at h
    · rename_i hkind
      cases h
      simpa [Terminated, Cursor.tokens, List.getLast?_cons, ← List.getLastD_eq_getLast?] using hkind
    · cases h

/-- Before the end of input there is another token. -/
theorem Terminated.exists_rest (h : cursor.Terminated) (hkind : cursor.current.kind ≠ .eof) :
    ∃ token rest, cursor.rest = token :: rest := by
  cases hrest : cursor.rest with
  | cons token rest => exact ⟨token, rest, rfl⟩
  | nil =>
    have hlast : cursor.current.kind = .eof := by simpa [Terminated, tokens, hrest] using h
    exact absurd hlast hkind

/-- Skipping stops at a token of another kind, at the latest at the end of input. -/
theorem current_skipWhile {skipped : TokenKind → Bool} (hend : cursor.Terminated) (heof : skipped .eof = false) :
    skipped (cursor.skipWhile skipped).current.kind = false := by
  have hlast : (cursor.skipWhile skipped).Terminated := hend.ahead (ahead_skipWhile cursor skipped)
  obtain ⟨before, current, rest⟩ := cursor
  change (skipFrom skipped before current rest).Terminated at hlast
  change skipped (skipFrom skipped before current rest).current.kind = false
  fun_induction skipFrom skipped before current rest with
  | case1 before current =>
    have hkind : current.kind = .eof := by simpa [Cursor.Terminated, tokens] using hlast
    rw [hkind]
    exact heof
  | case2 before current token rest hskipped ih => exact ih (hend.ahead (ahead_step _)) hlast
  | case3 before current token rest hskipped => simpa using hskipped

/-! ### Moves as indices

The list of a cursor ends, and a step stays on its last token. Where that is the end of input, no move comes to this:
the index goes up by one with every step. -/

theorem position_step (hend : cursor.Terminated) (hkind : cursor.current.kind ≠ .eof) :
    cursor.step.position = cursor.position + 1 := by
  obtain ⟨token, rest, hrest⟩ := hend.exists_rest hkind
  rw [step, hrest]
  rfl

/-- Skipping goes as many indices further as there are tokens to skip. -/
theorem position_skipWhile {skipped : TokenKind → Bool} (hend : cursor.Terminated) (heof : skipped .eof = false) :
    (cursor.skipWhile skipped).position =
      cursor.position + ((cursor.tokens.drop cursor.position).takeWhile fun token => skipped token.kind).length := by
  rw [drop_position]
  obtain ⟨before, current, rest⟩ := cursor
  change (skipFrom skipped before current rest).position =
    before.length + ((current :: rest).takeWhile fun token => skipped token.kind).length
  fun_induction skipFrom skipped before current rest with
  | case1 before current =>
    have hcurrent : skipped current.kind = false := current_skipWhile hend heof
    simp only [List.takeWhile_cons, hcurrent]
    rfl
  | case2 before current token rest hskipped ih =>
    rw [ih (hend.ahead (ahead_step _)), List.length_cons]
    simp only [List.takeWhile_cons, hskipped, if_true, List.length_cons]
    omega
  | case3 before current token rest hskipped =>
    simp only [List.takeWhile_cons, hskipped]
    rfl

theorem position_advance (hend : cursor.Terminated) (hkind : cursor.current.kind ≠ .eof) :
    cursor.advance.position = cursor.position + 1 +
      ((cursor.tokens.drop (cursor.position + 1)).takeWhile (·.kind = .newline)).length := by
  rw [advance, if_neg hkind, skipLineBreaks, position_skipWhile (hend.ahead (ahead_step cursor)) rfl, tokens_step,
    position_step hend hkind]

theorem position_lt_advance (hend : cursor.Terminated) (hkind : cursor.current.kind ≠ .eof) :
    cursor.position < cursor.advance.position := by
  rw [position_advance hend hkind]
  omega

/-! ## The token before the cursor -/

theorem previous?_skipFrom (before : List Token) (current : Token) (rest : List Token) :
    (skipFrom (· = .newline) before current rest).previous? = before.find? (·.kind ≠ .newline) := by
  induction rest generalizing before current with
  | nil => rfl
  | cons token rest ih =>
    rw [skipFrom]
    split
    · rename_i hnewline
      rw [ih, List.find?_cons_of_neg (by simpa using hnewline)]
    · rfl

theorem previous?_advance (hend : cursor.Terminated) (hkind : cursor.current.kind ≠ .eof)
    (hnewline : cursor.current.kind ≠ .newline) : cursor.advance.previous? = some cursor.current := by
  obtain ⟨token, rest, hrest⟩ := hend.exists_rest hkind
  rw [advance, if_neg hkind, skipLineBreaks, skipWhile, previous?_skipFrom, step, hrest]
  exact List.find?_cons_of_pos (by simpa using hnewline)

/-! ## Tokens and operands -/

theorem kind_of_isKeywordOf {token : Token} {word : String} (h : token.isKeywordOf word = true) :
    token.kind = .keyword := by
  rw [Token.isKeywordOf, Bool.and_eq_true, decide_eq_true_eq] at h
  exact h.1

theorem startsOperand_of_keyword {token : Token} (h : token.kind = .keyword) : startsOperand token = true := by
  rw [startsOperand, Token.isKeyword, h]
  rfl

theorem startsOperand_of_isObject {token : Token} (h : token.kind.isObject = true) : startsOperand token = true := by
  rw [startsOperand, h]
  rfl

/-- An operator starts an operand if it is unary. -/
theorem startsOperand_operator {token : Token} {op : Operator} (hkind : token.kind = .operator)
    (htext : token.text = op.symbol) : startsOperand token = op.isUnary := by
  rw [startsOperand, Token.isUnaryOperator, Token.isOperator, Token.isKeyword, hkind, htext]
  cases op <;> rfl

/-! ## Guarded cursors -/

/-- If an operand can start at the cursor, then another one can end right before it. -/
def Guarded (cursor : Cursor) : Prop :=
  startsOperand cursor.current = true →
    ∃ previous, cursor.previous? = some previous ∧ endsOperand previous = true

theorem endsOperand_of_closing {token : Token} {shape : Bracket} (h : token.kind = .closing shape) :
    endsOperand token = true := by
  rw [endsOperand, h]
  rfl

theorem guarded_advance (hend : cursor.Terminated) (h : endsOperand cursor.current = true) :
    cursor.advance.Guarded := by
  intro _
  refine ⟨cursor.current, previous?_advance hend ?_ ?_, h⟩
  · intro hkind
    simp [endsOperand, Token.isKeyword, hkind, TokenKind.isObject, TokenKind.isLiteral, TokenKind.isClosing] at h
  · intro hkind
    simp [endsOperand, Token.isKeyword, hkind, TokenKind.isObject, TokenKind.isLiteral, TokenKind.isClosing] at h

/-- A token that starts an operand ends no expression by its kind alone. -/
theorem not_ending_of_startsOperand {token : Token} (h : startsOperand token = true) (balanced : Bool) :
    token.kind ≠ .eof ∧
      (token.kind.isTerminator || token.kind = .comma || (token.kind.isClosing && balanced)) = false := by
  obtain ⟨kind, text, span⟩ := token
  cases kind with
  | name | keyword | operator | int | float | string | char | bool | opening =>
    exact ⟨fun hkind => (by cases hkind), by simp [TokenKind.isTerminator, TokenKind.isClosing]⟩
  | closing | assignment | comma | dot | colon | arrow | semicolon | newline | eof => cases h

/-- What an expression does at a token that starts an operand depends on the token before it. -/
theorem boundary_of_startsOperand (hposition : cursor.position ≠ first)
    (hstart : startsOperand cursor.current = true) :
    cursor.boundary first balanced =
      if cursor.previous?.any endsOperand then
        if cursor.followsBreak || cursor.current.isKeywordOf "else" then .ends else .clash
      else .inside := by
  obtain ⟨hkind, hending⟩ := not_ending_of_startsOperand hstart balanced
  rw [boundary, if_neg hkind, if_neg hposition, hending]
  simp only [Bool.false_eq_true, if_false]
  cases hprevious : cursor.previous? with
  | none => rfl
  | some previous => simp [hstart]

/-- The cursor is guarded where an expression ended. -/
theorem guarded_of_ends (h : cursor.boundary first balanced = .ends) : cursor.Guarded := by
  intro hstart
  by_cases hposition : cursor.position = first
  · obtain ⟨hkind, -⟩ := not_ending_of_startsOperand hstart balanced
    rw [boundary, if_neg hkind, if_pos hposition] at h
    cases h
  · rw [boundary_of_startsOperand hposition hstart] at h
    cases hany : cursor.previous?.any endsOperand with
    | false =>
      rw [hany] at h
      cases h
    | true => simpa [Option.any_eq_true] using hany

/-- An expression takes in no operand at a guarded cursor. -/
theorem boundary_ne_inside (hguarded : cursor.Guarded) (hposition : cursor.position ≠ first)
    (hstart : startsOperand cursor.current = true) : cursor.boundary first balanced ≠ .inside := by
  obtain ⟨previous, hprevious, hends⟩ := hguarded hstart
  rw [boundary_of_startsOperand hposition hstart, hprevious, Option.any_some, hends, if_pos rfl]
  split
  · intro h
    cases h
  · intro h
    cases h

/-- An expression does not go on at the end of input. -/
theorem kind_ne_eof_of_inside {first : Nat} {balanced : Bool} (h : cursor.boundary first balanced = .inside) :
    cursor.current.kind ≠ .eof := by
  intro hkind
  rw [boundary, if_pos hkind] at h
  cases h

/-- Where an expression starts, it takes in the token unless it is the end of input. -/
theorem boundary_position (hkind : cursor.current.kind ≠ .eof) (balanced : Bool) :
    cursor.boundary cursor.position balanced = .inside := by
  rw [boundary, if_neg hkind, if_pos rfl]

/-! ## Whole operands -/

/-- The cursor has moved on, in tokens that end with the end of input. -/
structure Past (cursor later : Cursor) : Prop where
  position : cursor.position < later.position
  terminated : later.Terminated

theorem past_advance (hend : cursor.Terminated) (hkind : cursor.current.kind ≠ .eof) :
    cursor.Past cursor.advance :=
  ⟨position_lt_advance hend hkind, hend.ahead (ahead_advance cursor)⟩

/-- The cursor has moved on to where no operand can start unnoticed. -/
structure Completes (cursor later : Cursor) : Prop where
  position : cursor.position < later.position
  guarded : later.Guarded

theorem completes_advance (hend : cursor.Terminated) (hkind : cursor.current.kind ≠ .eof)
    (h : endsOperand cursor.current = true) : cursor.Completes cursor.advance :=
  ⟨position_lt_advance hend hkind, guarded_advance hend h⟩

end Cursor

/-! ## Bodies in braces -/

theorem Cursor.repeat_step_succ (n : Nat) (cursor : Cursor) :
    Nat.repeat step (n + 1) cursor = Nat.repeat step n cursor.step := by
  induction n with
  | zero => rfl
  | succ n ih => rw [Nat.repeat, ih, Nat.repeat]

/-- Stepping over tokens leads to the one behind them. -/
theorem Cursor.current_repeat_step {cursor : Cursor} {passed more : List Token} {token : Token}
    (h : cursor.rest = passed ++ token :: more) : (Nat.repeat step (passed.length + 1) cursor).current = token := by
  induction passed generalizing cursor with
  | nil =>
    change cursor.step.current = token
    rw [step, h]
    rfl
  | cons next passed ih =>
    rw [List.length_cons, repeat_step_succ]
    refine ih ?_
    rw [step, h]
    rfl

theorem Token.curlyBody?_cons (depth : Nat) (token : Token) (rest : List Token) : curlyBody? depth (token :: rest) =
    if token.kind = .opening .curly then (curlyBody? (depth + 1) rest).map (token :: ·)
    else if token.kind = .closing .curly then
      match depth with
      | 0 => some []
      | depth + 1 => (curlyBody? depth rest).map (token :: ·)
    else (curlyBody? depth rest).map (token :: ·) := by
  conv => lhs; unfold curlyBody?
  split
  · rename_i hopening
    rw [if_pos hopening]
  · rename_i hclosing
    rw [hclosing]
    rfl
  · rename_i hclosing
    rw [hclosing]
    rfl
  · rename_i depth _ _ hopening hzero hclosing
    have hclosing' : token.kind ≠ .closing .curly := by
      intro hkind
      cases depth with
      | zero => exact hzero hkind rfl
      | succ depth => exact hclosing depth hkind rfl
    rw [if_neg hopening, if_neg hclosing']

/-- The tokens of a body are followed by a closing brace. What comes behind that makes no difference to the body. -/
theorem Token.curlyBody?_eq_some {depth : Nat} {tokens body : List Token} (h : curlyBody? depth tokens = some body) :
    ∃ closing more, tokens = body ++ closing :: more ∧ closing.kind = .closing .curly ∧
      ∀ other, curlyBody? depth (body ++ closing :: other) = some body := by
  induction tokens generalizing depth body with
  | nil => cases h
  | cons token rest ih =>
    rw [curlyBody?_cons] at h
    split at h
    · rename_i hopening
      obtain ⟨inner, hinner, rfl⟩ := Option.map_eq_some_iff.1 h
      obtain ⟨closing, more, rfl, hkind, hother⟩ := ih hinner
      refine ⟨closing, more, rfl, hkind, fun other => ?_⟩
      rw [List.cons_append, curlyBody?_cons, if_pos hopening, hother, Option.map_some]
    · rename_i hopening
      split at h
      · rename_i hclosing
        cases depth with
        | zero =>
          cases h
          refine ⟨token, rest, rfl, hclosing, fun other => ?_⟩
          rw [List.nil_append, curlyBody?_cons, if_neg hopening, if_pos hclosing]
        | succ depth =>
          obtain ⟨inner, hinner, rfl⟩ := Option.map_eq_some_iff.1 h
          obtain ⟨closing, more, rfl, hkind, hother⟩ := ih hinner
          refine ⟨closing, more, rfl, hkind, fun other => ?_⟩
          rw [List.cons_append, curlyBody?_cons, if_neg hopening, if_pos hclosing]
          dsimp only
          rw [hother, Option.map_some]
      · rename_i hclosing
        obtain ⟨inner, hinner, rfl⟩ := Option.map_eq_some_iff.1 h
        obtain ⟨closing, more, rfl, hkind, hother⟩ := ih hinner
        refine ⟨closing, more, rfl, hkind, fun other => ?_⟩
        rw [List.cons_append, curlyBody?_cons, if_neg hopening, if_neg hclosing, hother, Option.map_some]

namespace CursorM

open Cursor (guarded_advance guarded_of_ends)

variable {cursor later : Cursor}

theorem expect_eq_ok {kind : TokenKind} {token : Token} :
    expect kind cursor = .ok token later ↔
      cursor.current.kind = kind ∧ token = cursor.current ∧ later = cursor.advance := by
  change (if cursor.current.kind = kind then advance else unexpectedCurrent : CursorM Token) cursor = _ ↔ _
  by_cases hkind : cursor.current.kind = kind
  · rw [if_pos hkind]
    change EStateM.Result.ok cursor.current cursor.advance = _ ↔ _
    simp [hkind, eq_comm]
  · rw [if_neg hkind]
    exact ⟨fun h => (by cases h), fun h => absurd h.1 hkind⟩

theorem expectKeyword_eq_ok {word : String} {token : Token} :
    expectKeyword word cursor = .ok token later ↔
      cursor.current.isKeywordOf word = true ∧ token = cursor.current ∧ later = cursor.advance := by
  change (if cursor.current.isKeywordOf word then advance else unexpectedCurrent : CursorM Token) cursor = _ ↔ _
  by_cases hkeyword : cursor.current.isKeywordOf word = true
  · rw [if_pos hkeyword]
    change EStateM.Result.ok cursor.current cursor.advance = _ ↔ _
    simp [hkeyword, eq_comm]
  · rw [if_neg hkeyword]
    exact ⟨fun h => (by cases h), fun h => absurd h.1 hkeyword⟩

theorem guarded_body {tokens : List Token} (hend : cursor.Terminated) (h : body cursor = .ok tokens later) :
    later.Guarded := by
  change (if cursor.current.kind = .opening .curly then _ else unexpectedCurrent : CursorM _) cursor = _ at h
  split at h
  · cases hbody : Token.curlyBody? 0 cursor.rest with
    | none =>
      rw [hbody] at h
      cases h
    | some passed =>
      rw [hbody] at h
      cases h
      obtain ⟨closing, more, hrest, hclosing, -⟩ := Token.curlyBody?_eq_some hbody
      refine guarded_advance (hend.ahead (Cursor.ahead_repeat_step _ cursor)) ?_
      rw [Cursor.current_repeat_step hrest, Cursor.endsOperand, hclosing]
      rfl
  · cases h

theorem Advances.past {α : Type} {m : CursorM α} (hm : Advances m) {next : Cursor} {a : α}
    (h : m next = .ok a later) (hpast : cursor.Past next) : cursor.Past later := by
  have hahead := hm.ok h
  exact ⟨Nat.lt_of_lt_of_le hpast.position hahead.position, hpast.terminated.ahead hahead⟩

theorem completes_lambda {function : Function} (hend : cursor.Terminated) (hkind : cursor.current.kind ≠ .eof)
    (h : lambda cursor = .ok function later) : cursor.Completes later := by
  obtain ⟨_, _, hkeyword, h⟩ := bind_eq_ok.1 h
  obtain ⟨-, -, rfl⟩ := expectKeyword_eq_ok.1 hkeyword
  have hpast := Cursor.past_advance hend hkind
  obtain ⟨_, _, hopening, h⟩ := bind_eq_ok.1 h
  have hpast := (advances_expect _).past hopening hpast
  obtain ⟨_, _, hparameters, h⟩ := bind_eq_ok.1 h
  have hpast := (advances_bounded advances_parameters).past hparameters hpast
  obtain ⟨_, _, hclosing, h⟩ := bind_eq_ok.1 h
  have hpast := (advances_expect _).past hclosing hpast
  obtain ⟨_, _, htypes, h⟩ := bind_eq_ok.1 h
  have hpast := advances_returnTypes.past htypes hpast
  obtain ⟨_, _, hget, h⟩ := bind_eq_ok.1 h
  cases hget
  obtain ⟨_, _, hbody, h⟩ := bind_eq_ok.1 h
  cases h
  exact ⟨(advances_body.past hbody hpast).position, guarded_body hpast.terminated hbody⟩

/-- Skipping ends where the expression ends. -/
theorem guarded_skipRest {steps first : Nat} {waiting : List TokenKind}
    (h : skipRest steps first waiting cursor = .ok () later) : later.Guarded := by
  induction steps generalizing first waiting cursor with
  | zero => cases h
  | succ steps ih =>
    rw [skipRest, bind_get] at h
    cases hboundary : cursor.boundary first waiting.isEmpty with
    | ends =>
      rw [hboundary] at h
      cases h
      exact guarded_of_ends hboundary
    | clash =>
      rw [hboundary] at h
      cases h
    | inside =>
      rw [hboundary] at h
      dsimp only at h
      split at h
      · obtain ⟨_, _, _, h⟩ := bind_eq_ok.1 h
        obtain ⟨_, _, _, h⟩ := bind_eq_ok.1 h
        exact ih h
      · split at h
        · obtain ⟨_, _, _, h⟩ := bind_eq_ok.1 h
          exact ih h
        · split at h
          · obtain ⟨_, _, _, h⟩ := bind_eq_ok.1 h
            exact ih h
          · obtain ⟨_, _, _, h⟩ := bind_eq_ok.1 h
            exact ih h

theorem guarded_skipExpression (h : skipExpression cursor = .ok () later) : later.Guarded := by
  obtain ⟨_, _, _, h⟩ := bind_eq_ok.1 h
  obtain ⟨_, _, _, h⟩ := bind_eq_ok.1 h
  obtain ⟨_, _, _, h⟩ := bind_eq_ok.1 h
  exact guarded_skipRest h

end CursorM

end GradualScript
