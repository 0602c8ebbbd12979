import GradualScript.Proofs.Cursor.Operand

/-!
# Lines of errors in readings

A reading that fails leaves the cursor where it stopped, and reports that line.

* `Token.lineBreaks` : the number of line breaks, which no cursor's line is above (`line_le_lineBreaks`);
* `CursorM.FailsHere` : errors are at the line where the reading stops, as those of every reading are
  (`closed_failsHere`);
* `CursorM.Placed` : so errors are at lines of the tokens that are read (`closed_placed`, `Placed.line_le`);
* `exists_of_lambda` : a function has the tokens behind some opening brace as its body, and starts on the line of that
  brace.
-/

set_option autoImplicit false

namespace GradualScript

/-- The number of line breaks. -/
def Token.lineBreaks (tokens : List Token) : Nat :=
  tokens.countP (·.kind = .newline)

theorem Token.lineBreaks_append (tokens more : List Token) :
    lineBreaks (tokens ++ more) = lineBreaks tokens + lineBreaks more :=
  List.countP_append

/-- There are as many line breaks as the lines before the cursor, and those from the cursor on. -/
theorem Cursor.lineBreaks_tokens (cursor : Cursor) :
    Token.lineBreaks cursor.tokens = cursor.line + Token.lineBreaks (cursor.current :: cursor.rest) := by
  rw [tokens, Token.lineBreaks_append, Token.lineBreaks, List.countP_reverse]
  rfl

theorem Cursor.line_le_lineBreaks (cursor : Cursor) : cursor.line ≤ Token.lineBreaks cursor.tokens := by
  rw [lineBreaks_tokens]
  exact Nat.le_add_right _ _

namespace CursorM

variable {α β : Type}

/-- An error of the reading is at the line where the reading stops. -/
def FailsHere (m : CursorM α) : Prop :=
  ∀ cursor error later, m cursor = .error (.error error) later → error.line = later.line

theorem FailsHere.bind {m : CursorM α} {f : α → CursorM β} (hm : FailsHere m) (hf : ∀ a, FailsHere (f a)) :
    FailsHere (m >>= f) := by
  intro cursor error later h
  cases hrun : m cursor with
  | ok a next =>
    rw [bind_of_ok hrun] at h
    exact hf a next error later h
  | error failure next =>
    rw [bind_of_error hrun] at h
    cases h
    exact hm cursor error _ hrun

theorem failsHere_fail (kind : ErrorKind) : FailsHere (fail kind : CursorM α) := by
  intro cursor error later h
  cases h
  rfl

theorem failsHere_body : FailsHere body := by
  intro cursor error later h
  change (if cursor.current.kind = .opening .curly then _ else unexpectedCurrent : CursorM _) cursor = _ at h
  split at h
  · cases hbody : Token.curlyBody? 0 cursor.rest with
    | some tokens =>
      rw [hbody] at h
      cases h
    | none =>
      rw [hbody] at h
      cases h
      rfl
  · cases h
    rfl

theorem closed_failsHere : Closed @FailsHere where
  pure _ _ _ _ h := nomatch h
  bind := FailsHere.bind
  get _ _ _ h := nomatch h
  fail := failsHere_fail
  outOfSteps _ _ _ h := nomatch h
  currentKind _ _ _ h := nomatch h
  advance _ _ _ h := nomatch h
  skipLineBreaks _ _ _ h := nomatch h
  skipStatementBreaks _ _ _ h := nomatch h
  body := failsHere_body

/-- The reading leaves the tokens as they are and reports errors where it stops. -/
abbrev Placed (m : CursorM α) : Prop := Advances m ∧ FailsHere m

theorem closed_placed : Closed @Placed := closed_advances.and closed_failsHere

theorem Placed.line_le {m : CursorM α} (h : Placed m) {cursor later : Cursor} {error : Error}
    (hm : m cursor = .error (.error error) later) : error.line ≤ Token.lineBreaks cursor.tokens := by
  rw [h.2 cursor error later hm, ← (h.1.error hm).tokens]
  exact later.line_le_lineBreaks

/-! ## Where functions start -/

theorem exists_of_body {cursor later : Cursor} {tokens : List Token} (h : body cursor = .ok tokens later) :
    ∃ inner, cursor.current.kind = .opening .curly ∧ Token.curlyBody? 0 cursor.rest = some inner ∧
      tokens = inner ++ [Token.eof] := by
  change (if cursor.current.kind = .opening .curly then _ else unexpectedCurrent : CursorM _) cursor = _ at h
  split at h
  · rename_i hopening
    cases hbody : Token.curlyBody? 0 cursor.rest with
    | none =>
      rw [hbody] at h
      cases h
    | some inner =>
      rw [hbody] at h
      cases h
      exact ⟨inner, hopening, rfl, rfl⟩
  · cases h

/-- The opening brace of a function that has been read. -/
theorem exists_of_lambda {cursor later : Cursor} {function : Function} (h : lambda cursor = .ok function later) :
    ∃ (place : Cursor) (inner : List Token), place.tokens = cursor.tokens ∧ place.current.kind = .opening .curly ∧
      Token.curlyBody? 0 place.rest = some inner ∧ function.body = inner ++ [Token.eof] ∧
      function.startLine = place.line := by
  obtain ⟨_, _, hkeyword, h⟩ := bind_eq_ok.1 h
  obtain ⟨_, _, hopening, h⟩ := bind_eq_ok.1 h
  obtain ⟨_, _, hparameters, h⟩ := bind_eq_ok.1 h
  obtain ⟨_, _, hclosing, h⟩ := bind_eq_ok.1 h
  obtain ⟨_, place, htypes, h⟩ := bind_eq_ok.1 h
  obtain ⟨_, _, hget, h⟩ := bind_eq_ok.1 h
  cases hget
  obtain ⟨tokens, _, hbody, h⟩ := bind_eq_ok.1 h
  cases h
  obtain ⟨inner, hcurly, hinner, rfl⟩ := exists_of_body hbody
  have htokens : place.tokens = cursor.tokens := by
    rw [(advances_returnTypes.ok htypes).tokens, ((advances_expect _).ok hclosing).tokens,
      ((advances_bounded advances_parameters).ok hparameters).tokens, ((advances_expect _).ok hopening).tokens,
      ((advances_expectKeyword _).ok hkeyword).tokens]
  exact ⟨place, inner, htokens, hcurly, hinner, rfl, rfl⟩

end CursorM

end GradualScript
