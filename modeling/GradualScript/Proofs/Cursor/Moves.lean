import GradualScript.Cursor.Skip
import GradualScript.Proofs.Run

/-!
# Moves of the cursor

* `Cursor.Ahead` : a cursor on the same tokens, at the same place or further on;
* `eq_of_position` : the tokens and the index tell the cursor;
* `ahead_step`, `ahead_advance`, … : every move goes ahead;
* `CursorM.Closed` : a property of the single moves that goes over to readings put together from them, so that it
  holds of all readings (`Closed.expect`, `Closed.lambda`, `Closed.skipExpression`, …);
* `CursorM.Advances` : a reading never changes the tokens and never goes back (`closed_advances`, and for each reading
  `advances_expect`, `advances_lambda`, …).
-/

set_option autoImplicit false

namespace GradualScript

namespace Cursor

/-- The same tokens at the same place or further on. -/
structure Ahead (cursor later : Cursor) : Prop where
  tokens : later.tokens = cursor.tokens
  position : cursor.position ≤ later.position

instance lasting_ahead : Lasting Ahead where
  refl _ := ⟨rfl, Nat.le_refl _⟩
  trans h h' := ⟨h'.tokens.trans h.tokens, Nat.le_trans h.position h'.position⟩

theorem getElem?_position (cursor : Cursor) : cursor.tokens[cursor.position]? = some cursor.current := by
  simp [tokens, position]

theorem take_position (cursor : Cursor) : cursor.tokens.take cursor.position = cursor.before.reverse := by
  rw [tokens, position, ← List.length_reverse, List.take_left]

theorem drop_position (cursor : Cursor) : cursor.tokens.drop cursor.position = cursor.current :: cursor.rest := by
  rw [tokens, position, ← List.length_reverse, List.drop_left]

/-- A cursor is told by its tokens and its index. -/
theorem eq_of_position {cursor later : Cursor} (htokens : later.tokens = cursor.tokens)
    (hposition : later.position = cursor.position) : later = cursor := by
  have hbefore : later.before = cursor.before := by
    rw [← List.reverse_inj, ← take_position, ← take_position, htokens, hposition]
  have hcoming : later.current :: later.rest = cursor.current :: cursor.rest := by
    rw [← drop_position, ← drop_position, htokens, hposition]
  obtain ⟨hcurrent, hrest⟩ := List.cons.inj hcoming
  cases later
  cases hbefore
  cases hcurrent
  cases hrest
  rfl

theorem ahead_step (cursor : Cursor) : cursor.Ahead cursor.step := by
  refine ⟨tokens_step cursor, ?_⟩
  unfold step
  split
  · exact Nat.le_refl _
  · exact Nat.le_succ _

theorem position_skipFrom (skipped : TokenKind → Bool) (before : List Token) (current : Token)
    (rest : List Token) : before.length ≤ (skipFrom skipped before current rest).position := by
  fun_induction skipFrom skipped before current rest with
  | case1 => exact Nat.le_refl _
  | case2 before current token rest h ih => exact Nat.le_trans (Nat.le_succ _) ih
  | case3 => exact Nat.le_refl _

theorem skipFrom_of_not {skipped : TokenKind → Bool} {before rest : List Token} {token : Token}
    (h : skipped token.kind = false) : skipFrom skipped before token rest = ⟨before, token, rest⟩ := by
  cases rest with
  | nil => rfl
  | cons next rest =>
    rw [skipFrom, h]
    rfl

theorem ahead_skipWhile (cursor : Cursor) (skipped : TokenKind → Bool) : cursor.Ahead (cursor.skipWhile skipped) :=
  ⟨tokens_skipWhile cursor skipped, position_skipFrom skipped cursor.before cursor.current cursor.rest⟩

theorem ahead_advance (cursor : Cursor) : cursor.Ahead cursor.advance := by
  unfold advance
  split
  · exact lasting_ahead.refl cursor
  · exact lasting_ahead.trans (ahead_step cursor) (ahead_skipWhile cursor.step _)

theorem ahead_repeat_step (n : Nat) (cursor : Cursor) : cursor.Ahead (Nat.repeat step n cursor) := by
  induction n with
  | zero => exact lasting_ahead.refl cursor
  | succ n ih => exact lasting_ahead.trans ih (ahead_step _)

end Cursor

namespace CursorM

/-- The property holds of single moves, of failures and of bodies in braces, and of readings one after another. -/
structure Closed (P : ∀ {α : Type}, CursorM α → Prop) : Prop where
  pure : ∀ {α : Type} (a : α), P (Pure.pure a : CursorM α)
  bind : ∀ {α β : Type} {m : CursorM α} {f : α → CursorM β}, P m → (∀ a, P (f a)) → P (m >>= f)
  get : P (MonadState.get : CursorM Cursor)
  fail : ∀ {α : Type} (kind : ErrorKind), P (CursorM.fail kind : CursorM α)
  outOfSteps : ∀ {α : Type}, P (CursorM.outOfSteps : CursorM α)
  currentKind : P CursorM.currentKind
  advance : P CursorM.advance
  skipLineBreaks : P CursorM.skipLineBreaks
  skipStatementBreaks : P CursorM.skipStatementBreaks
  body : P CursorM.body

namespace Closed

variable {P : ∀ {α : Type}, CursorM α → Prop} {α : Type}

theorem and {Q : ∀ {α : Type}, CursorM α → Prop} (h : Closed @P) (h' : Closed @Q) :
    Closed fun {α : Type} (m : CursorM α) => P m ∧ Q m where
  pure a := ⟨h.pure a, h'.pure a⟩
  bind hm hf := ⟨h.bind hm.1 fun a => (hf a).1, h'.bind hm.2 fun a => (hf a).2⟩
  get := ⟨h.get, h'.get⟩
  fail kind := ⟨h.fail kind, h'.fail kind⟩
  outOfSteps := ⟨h.outOfSteps, h'.outOfSteps⟩
  currentKind := ⟨h.currentKind, h'.currentKind⟩
  advance := ⟨h.advance, h'.advance⟩
  skipLineBreaks := ⟨h.skipLineBreaks, h'.skipLineBreaks⟩
  skipStatementBreaks := ⟨h.skipStatementBreaks, h'.skipStatementBreaks⟩
  body := ⟨h.body, h'.body⟩

theorem unexpectedCurrent (h : Closed @P) : P (CursorM.unexpectedCurrent : CursorM α) :=
  h.bind h.get fun _ => h.fail _

theorem expect (h : Closed @P) (kind : TokenKind) : P (CursorM.expect kind) := by
  refine h.bind h.get fun cursor => ?_
  split
  · exact h.advance
  · exact h.unexpectedCurrent

theorem expectKeyword (h : Closed @P) (word : String) : P (CursorM.expectKeyword word) := by
  refine h.bind h.get fun cursor => ?_
  split
  · exact h.advance
  · exact h.unexpectedCurrent

theorem bounded (h : Closed @P) {loop : Nat → CursorM α} (hloop : ∀ n, P (loop n)) : P (CursorM.bounded loop) :=
  h.bind h.get fun _ => hloop _

/-! ## Lambdas -/

theorem declaredType (h : Closed @P) : P CursorM.declaredType := by
  refine h.bind h.currentKind fun kind => ?_
  split
  · exact h.bind h.advance fun _ => h.bind (h.expect _) fun _ => h.pure _
  · exact h.pure _

theorem parameters (h : Closed @P) (steps : Nat) : P (CursorM.parameters steps) := by
  induction steps with
  | zero => exact h.outOfSteps
  | succ steps ih =>
    refine h.bind h.currentKind fun kind => ?_
    split
    · exact h.pure _
    · refine h.bind (h.expect _) fun name => h.bind h.declaredType fun type => ?_
      refine h.bind h.currentKind fun next => ?_
      split
      · exact h.bind h.advance fun _ => h.bind ih fun _ => h.pure _
      · exact h.bind ih fun _ => h.pure _
      · exact h.unexpectedCurrent

theorem typeNames (h : Closed @P) (steps : Nat) (types : TypeSet) : P (CursorM.typeNames steps types) := by
  induction steps generalizing types with
  | zero => exact h.outOfSteps
  | succ steps ih =>
    refine h.bind (h.expect _) fun name => h.bind h.currentKind fun next => ?_
    split
    · exact h.bind h.advance fun _ => ih _
    · exact h.pure _
    · exact h.unexpectedCurrent

theorem returnTypes (h : Closed @P) : P CursorM.returnTypes := by
  refine h.bind h.currentKind fun kind => ?_
  split
  · refine h.bind h.advance fun _ => h.bind h.currentKind fun next => ?_
    split
    · refine h.bind h.advance fun _ => h.bind (h.bounded fun n => h.typeNames n _) fun types => ?_
      exact h.bind (h.expect _) fun _ => h.pure _
    · exact h.bind (h.expect _) fun _ => h.pure _
  · exact h.pure _

theorem lambda (h : Closed @P) : P CursorM.lambda := by
  refine h.bind (h.expectKeyword _) fun _ => h.bind (h.expect _) fun _ => ?_
  refine h.bind (h.bounded h.parameters) fun parameters => h.bind (h.expect _) fun _ => ?_
  refine h.bind h.returnTypes fun types => h.bind h.get fun cursor => ?_
  exact h.bind h.body fun _ => h.pure _

/-! ## Skipping -/

theorem skipGroupRest (h : Closed @P) (start : Token) (steps depth : Nat) :
    P (CursorM.skipGroupRest start steps depth) := by
  induction steps generalizing depth with
  | zero => exact h.outOfSteps
  | succ steps ih =>
    refine h.bind h.currentKind fun kind => ?_
    split
    · exact h.fail _
    · exact h.bind h.advance fun _ => ih _
    · exact h.bind h.advance fun _ => h.pure _
    · exact h.bind h.advance fun _ => ih _
    · exact h.bind h.advance fun _ => ih _

theorem skipGroup (h : Closed @P) : P CursorM.skipGroup :=
  h.bind (h.expect _) fun _ => h.bounded fun _ => h.skipGroupRest _ _ _

theorem skipTernary (h : Closed @P) {expression : CursorM Unit} (hexpression : P expression) :
    P (CursorM.skipTernary expression) :=
  h.bind (h.expectKeyword _) fun _ => h.bind h.skipGroup fun _ => h.bind hexpression fun _ =>
    h.bind (h.expectKeyword _) fun _ => hexpression

theorem skipRest (h : Closed @P) (steps first : Nat) (waiting : List TokenKind) :
    P (CursorM.skipRest steps first waiting) := by
  induction steps generalizing first waiting with
  | zero => exact h.outOfSteps
  | succ steps ih =>
    refine h.bind h.get fun cursor => ?_
    split
    · exact h.pure _
    · exact h.unexpectedCurrent
    · split
      · exact h.bind h.advance fun _ => h.bind h.skipGroup fun _ => ih _ _
      · split
        · refine h.bind (h.skipTernary ?_) fun _ => ih _ _
          exact h.bind h.skipLineBreaks fun _ => h.bind h.get fun _ => ih _ _
        · split
          · exact h.bind h.lambda fun _ => ih _ _
          · exact h.bind h.advance fun _ => ih _ _

theorem skipExpression (h : Closed @P) : P CursorM.skipExpression :=
  h.bind h.skipLineBreaks fun _ => h.bind h.get fun _ => h.bounded fun _ => h.skipRest _ _ _

end Closed

/-! ## Tokens that stay as they are -/

open Cursor (Ahead lasting_ahead)

variable {α : Type}

/-- The reading leaves the tokens as they are and does not go back. -/
abbrev Advances (m : CursorM α) : Prop := Keeps Ahead m

theorem advances_fail (kind : ErrorKind) : Advances (fail kind : CursorM α) :=
  fun cursor => lasting_ahead.refl cursor

theorem advances_currentKind : Advances currentKind := fun cursor => lasting_ahead.refl cursor

theorem advances_advance : Advances advance := Cursor.ahead_advance

theorem advances_skipLineBreaks : Advances skipLineBreaks := fun cursor => Cursor.ahead_skipWhile cursor _

theorem advances_skipStatementBreaks : Advances skipStatementBreaks := fun cursor => Cursor.ahead_skipWhile cursor _

theorem advances_unexpectedCurrent : Advances (unexpectedCurrent : CursorM α) :=
  Keeps.get.bind fun _ => advances_fail _

theorem advances_body : Advances body := by
  intro cursor
  change cursor.Ahead (endState ((if cursor.current.kind = .opening .curly then _ else unexpectedCurrent : CursorM _)
    cursor))
  split
  · cases Token.curlyBody? 0 cursor.rest with
    | some tokens => exact lasting_ahead.trans (Cursor.ahead_repeat_step _ cursor) (Cursor.ahead_advance _)
    | none => exact advances_unexpectedCurrent cursor
  · exact advances_unexpectedCurrent cursor

theorem closed_advances : Closed @Advances where
  pure := Keeps.pure
  bind := Keeps.bind
  get := Keeps.get
  fail := advances_fail
  outOfSteps cursor := lasting_ahead.refl cursor
  currentKind := advances_currentKind
  advance := advances_advance
  skipLineBreaks := advances_skipLineBreaks
  skipStatementBreaks := advances_skipStatementBreaks
  body := advances_body

theorem advances_expect (kind : TokenKind) : Advances (expect kind) := closed_advances.expect kind

theorem advances_expectKeyword (word : String) : Advances (expectKeyword word) := closed_advances.expectKeyword word

theorem advances_bounded {loop : Nat → CursorM α} (h : ∀ n, Advances (loop n)) : Advances (bounded loop) :=
  closed_advances.bounded h

theorem advances_parameters (steps : Nat) : Advances (parameters steps) := closed_advances.parameters steps

theorem advances_returnTypes : Advances returnTypes := closed_advances.returnTypes

theorem advances_lambda : Advances lambda := closed_advances.lambda

theorem advances_skipExpression : Advances skipExpression := closed_advances.skipExpression

end CursorM

end GradualScript
