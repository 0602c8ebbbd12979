import GradualScript.Proofs.Cursor.Operand
import GradualScript.Proofs.Tandem.Basic

/-!
# Readings that end

Every loop over tokens moves the cursor in each round, also where the tokens make no sense. So it ends within as many
steps as there are tokens, and the number of steps that it is given makes no difference beyond that.

* `Token.Terminated` : tokens that end with the end of input;
* `Cursor.Within` : fewer than `n` tokens come behind the cursor, and the last of them is the end of input;
* `CursorM.Reads` : two readings go alike and fail only with an error of the program;
* `reads_parameters`, `reads_skipRest`, … : the loops, with two numbers of steps.
-/

set_option autoImplicit false

namespace GradualScript

/-- The last token is the end of input. -/
def Token.Terminated (tokens : List Token) : Prop :=
  tokens.getLast?.map Token.kind = some .eof

instance : DecidablePred Token.Terminated := fun tokens =>
  inferInstanceAs (Decidable (tokens.getLast?.map Token.kind = some .eof))

namespace Cursor

variable {cursor later : Cursor} {n : Nat}

/-- Fewer than `n` tokens come behind the current one, up to the end of input. -/
structure Within (n : Nat) (cursor : Cursor) : Prop where
  terminated : cursor.Terminated
  length : cursor.rest.length < n

theorem length_tokens (cursor : Cursor) : cursor.tokens.length = cursor.position + cursor.rest.length + 1 := by
  simp only [tokens, position, List.length_append, List.length_reverse, List.length_cons]
  omega

theorem Within.ahead (h : cursor.Within n) (hahead : cursor.Ahead later) : later.Within n := by
  refine ⟨h.terminated.ahead hahead, ?_⟩
  have hlength := later.length_tokens
  rw [hahead.tokens, cursor.length_tokens] at hlength
  have hposition := hahead.position
  have hn := h.length
  omega

theorem Within.mono {m : Nat} (h : cursor.Within n) (hle : n ≤ m) : cursor.Within m :=
  ⟨h.terminated, Nat.lt_of_lt_of_le h.length hle⟩

/-- A token that is read is one less to come. -/
theorem Within.advance (h : cursor.Within (n + 1)) (hkind : cursor.current.kind ≠ .eof) :
    cursor.advance.Within n := by
  refine ⟨h.terminated.ahead (ahead_advance cursor), ?_⟩
  have hposition := position_lt_advance h.terminated hkind
  have hlength := cursor.advance.length_tokens
  rw [tokens_advance, cursor.length_tokens] at hlength
  have hn := h.length
  omega

end Cursor

namespace CursorM

open Cursor (Within)

variable {α β : Type} {n : Nat} {V : α → Prop} {cursor : Cursor}

/-- Two readings go alike: they end in one place with fewer than `n` tokens to come, or fail with one error of the
program. -/
abbrev Reads (n : Nat) (V : α → Prop) (result other : EStateM.Result Failure Cursor α) : Prop :=
  Alike Failure.Plain (fun cursor later => later = cursor) (fun cursor later => later = cursor ∧ cursor.Within n) V
    result other

namespace Reads

variable {result other : EStateM.Result Failure Cursor α} {W : β → Prop} {m : Nat}

theorem mono (h : Reads m V result other) (hle : m ≤ n) : Reads n V result other :=
  Alike.imp h (fun _ hf => hf) (fun _ _ he => he) (fun _ _ hr => ⟨hr.1, hr.2.mono hle⟩) fun _ hv => hv

theorem imp {V' : α → Prop} (h : Reads n V result other) (hV : ∀ a, V a → V' a) : Reads n V' result other :=
  Alike.imp h (fun _ hf => hf) (fun _ _ he => he) (fun _ _ hr => hr) hV

theorem bind {x x' : CursorM α} {f f' : α → CursorM β} (h : Reads m V (x cursor) (x' cursor))
    (hf : ∀ a later, V a → later.Within m → Reads n W (f a later) (f' a later)) :
    Reads n W ((x >>= f) cursor) ((x' >>= f') cursor) := by
  refine Alike.bind h fun a later other hv hr => ?_
  obtain ⟨heq, hwithin⟩ := hr
  rw [heq]
  exact hf a later hv hwithin

end Reads

theorem reads_pure {a : α} (hV : V a) (h : cursor.Within n) :
    Reads n V ((pure a : CursorM α) cursor) ((pure a : CursorM α) cursor) :=
  .ok hV ⟨rfl, h⟩

theorem reads_fail (kind : ErrorKind) : Reads n V (fail kind cursor) (fail kind cursor) :=
  .error ⟨_, rfl⟩ rfl

theorem reads_unexpectedCurrent : Reads n V (unexpectedCurrent cursor) (unexpectedCurrent cursor) :=
  .error ⟨_, rfl⟩ rfl

theorem reads_currentKind {W : β → Prop} {f f' : TokenKind → CursorM β}
    (hf : ∀ kind, cursor.current.kind = kind → Reads n W (f kind cursor) (f' kind cursor)) :
    Reads n W ((currentKind >>= f) cursor) ((currentKind >>= f') cursor) :=
  hf _ rfl

theorem reads_skipLineBreaks (h : cursor.Within n) :
    Reads n (fun _ => True) (skipLineBreaks cursor) (skipLineBreaks cursor) :=
  .ok trivial ⟨rfl, h.ahead (Cursor.ahead_skipWhile cursor _)⟩

theorem reads_skipStatementBreaks (h : cursor.Within n) :
    Reads n (fun _ => True) (skipStatementBreaks cursor) (skipStatementBreaks cursor) :=
  .ok trivial ⟨rfl, h.ahead (Cursor.ahead_skipWhile cursor _)⟩

/-- The current token is read, if what comes behind it is known to be short enough. -/
theorem reads_next (h : cursor.advance.Within n) : Reads n (fun _ => True) (advance cursor) (advance cursor) :=
  .ok trivial ⟨rfl, h⟩

theorem reads_advance (h : cursor.Within n) : Reads n (fun _ => True) (advance cursor) (advance cursor) :=
  reads_next (h.ahead (Cursor.ahead_advance cursor))

theorem reads_advance_succ (h : cursor.Within (n + 1)) (hkind : cursor.current.kind ≠ .eof) :
    Reads n (fun _ => True) (advance cursor) (advance cursor) :=
  reads_next (h.advance hkind)

theorem reads_expect_succ {kind : TokenKind} (h : cursor.Within (n + 1)) (hkind : kind ≠ .eof) :
    Reads n (fun _ => True) (expect kind cursor) (expect kind cursor) := by
  rw [expect, bind_get]
  split
  · rename_i hcurrent
    exact reads_advance_succ h (hcurrent ▸ hkind)
  · exact reads_unexpectedCurrent

theorem reads_expect {kind : TokenKind} (h : cursor.Within n) :
    Reads n (fun _ => True) (expect kind cursor) (expect kind cursor) := by
  rw [expect, bind_get]
  split
  · exact reads_advance h
  · exact reads_unexpectedCurrent

theorem reads_expectKeyword_succ {word : String} (h : cursor.Within (n + 1)) :
    Reads n (fun _ => True) (expectKeyword word cursor) (expectKeyword word cursor) := by
  rw [expectKeyword, bind_get]
  split
  · rename_i hkeyword
    refine reads_advance_succ h ?_
    rw [Cursor.kind_of_isKeywordOf hkeyword]
    exact TokenKind.noConfusion
  · exact reads_unexpectedCurrent

theorem reads_expectKeyword {word : String} (h : cursor.Within n) :
    Reads n (fun _ => True) (expectKeyword word cursor) (expectKeyword word cursor) :=
  (reads_expectKeyword_succ (h.mono (Nat.le_succ n)))

/-- A loop that is given one step more than there are tokens to come has enough of them. -/
theorem reads_bounded {loop : Nat → CursorM α} (h : cursor.Within n)
    (hloop : ∀ m steps, m ≤ steps → cursor.Within m → Reads m V (loop steps cursor) (loop steps cursor)) :
    Reads n V (bounded loop cursor) (bounded loop cursor) := by
  rw [bounded, bind_get]
  exact (hloop _ _ (Nat.le_refl _) ⟨h.terminated, Nat.lt_succ_self _⟩).mono h.length

/-! ## Lambdas -/

theorem reads_declaredType (h : cursor.Within n) :
    Reads n (fun _ => True) (declaredType cursor) (declaredType cursor) := by
  rw [declaredType]
  refine reads_currentKind fun kind _ => ?_
  split
  · refine (reads_advance h).bind fun _ _ _ h => ?_
    exact (reads_expect h).bind fun _ _ _ h => reads_pure trivial h
  · exact reads_pure trivial h

theorem reads_parameters {steps others : Nat} (hsteps : n ≤ steps) (hothers : n ≤ others) (h : cursor.Within n) :
    Reads n (fun _ => True) (parameters steps cursor) (parameters others cursor) := by
  induction n generalizing steps others cursor with
  | zero => exact absurd h.length (Nat.not_lt_zero _)
  | succ n ih =>
    obtain ⟨steps, rfl⟩ := Nat.exists_eq_add_one.2 (Nat.lt_of_lt_of_le n.succ_pos hsteps)
    obtain ⟨others, rfl⟩ := Nat.exists_eq_add_one.2 (Nat.lt_of_lt_of_le n.succ_pos hothers)
    rw [parameters, parameters]
    refine reads_currentKind fun kind _ => ?_
    split
    · exact reads_pure trivial h
    · refine (reads_expect_succ h TokenKind.noConfusion).bind fun name cursor _ h => ?_
      refine (reads_declaredType h).bind fun type cursor _ h => ?_
      refine reads_currentKind fun kind _ => ?_
      split
      · refine (reads_advance h).bind fun _ cursor _ h => ?_
        refine (ih (by omega) (by omega) h).bind fun rest cursor _ h => ?_
        exact reads_pure trivial (h.mono (Nat.le_succ n))
      · refine (ih (by omega) (by omega) h).bind fun rest cursor _ h => ?_
        exact reads_pure trivial (h.mono (Nat.le_succ n))
      · exact reads_unexpectedCurrent

theorem reads_typeNames {steps others : Nat} (types : TypeSet) (hsteps : n ≤ steps) (hothers : n ≤ others)
    (h : cursor.Within n) : Reads n (fun _ => True) (typeNames steps types cursor) (typeNames others types cursor) := by
  induction n generalizing steps others types cursor with
  | zero => exact absurd h.length (Nat.not_lt_zero _)
  | succ n ih =>
    obtain ⟨steps, rfl⟩ := Nat.exists_eq_add_one.2 (Nat.lt_of_lt_of_le n.succ_pos hsteps)
    obtain ⟨others, rfl⟩ := Nat.exists_eq_add_one.2 (Nat.lt_of_lt_of_le n.succ_pos hothers)
    rw [typeNames, typeNames]
    refine (reads_expect_succ h TokenKind.noConfusion).bind fun name cursor _ h => ?_
    refine reads_currentKind fun kind _ => ?_
    split
    · refine (reads_advance h).bind fun _ cursor _ h => ?_
      exact (ih _ (by omega) (by omega) h).mono (Nat.le_succ n)
    · exact reads_pure trivial (h.mono (Nat.le_succ n))
    · exact reads_unexpectedCurrent

theorem reads_returnTypes (h : cursor.Within n) :
    Reads n (fun _ => True) (returnTypes cursor) (returnTypes cursor) := by
  rw [returnTypes]
  refine reads_currentKind fun kind _ => ?_
  split
  · refine (reads_advance h).bind fun _ cursor _ h => ?_
    refine reads_currentKind fun kind _ => ?_
    split
    · refine (reads_advance h).bind fun _ cursor _ h => ?_
      refine (reads_bounded h fun m steps hle h => reads_typeNames _ hle hle h).bind fun types cursor _ h => ?_
      exact (reads_expect h).bind fun _ _ _ h => reads_pure trivial h
    · exact (reads_expect h).bind fun _ _ _ h => reads_pure trivial h
  · exact reads_pure trivial h

/-- The tokens of a body end with the end of input, whatever they were cut out of. -/
theorem reads_body (h : cursor.Within n) : Reads n Token.Terminated (body cursor) (body cursor) := by
  rw [body, bind_get]
  split
  · cases Token.curlyBody? 0 cursor.rest with
    | some tokens =>
      refine .ok (by simp [Token.Terminated, Token.eof]) ⟨rfl, ?_⟩
      exact (h.ahead (Cursor.ahead_repeat_step _ cursor)).ahead (Cursor.ahead_advance _)
    | none => exact reads_unexpectedCurrent
  · exact reads_unexpectedCurrent

theorem reads_lambda_succ (h : cursor.Within (n + 1)) :
    Reads n (fun function => Token.Terminated function.body) (lambda cursor) (lambda cursor) := by
  rw [lambda]
  refine (reads_expectKeyword_succ h).bind fun _ cursor _ h => ?_
  refine (reads_expect h).bind fun _ cursor _ h => ?_
  refine (reads_bounded h fun m steps hle h => reads_parameters hle hle h).bind fun parameters cursor _ h => ?_
  refine (reads_expect h).bind fun _ cursor _ h => ?_
  refine (reads_returnTypes h).bind fun types cursor _ h => ?_
  rw [bind_get]
  exact (reads_body h).bind fun body cursor hbody h => reads_pure hbody h

/-! ## Skipping -/

theorem reads_skipGroupRest {steps others : Nat} (start : Token) (depth : Nat) (hsteps : n ≤ steps)
    (hothers : n ≤ others) (h : cursor.Within n) :
    Reads n (fun _ => True) (skipGroupRest start steps depth cursor) (skipGroupRest start others depth cursor) := by
  induction n generalizing steps others depth cursor with
  | zero => exact absurd h.length (Nat.not_lt_zero _)
  | succ n ih =>
    obtain ⟨steps, rfl⟩ := Nat.exists_eq_add_one.2 (Nat.lt_of_lt_of_le n.succ_pos hsteps)
    obtain ⟨others, rfl⟩ := Nat.exists_eq_add_one.2 (Nat.lt_of_lt_of_le n.succ_pos hothers)
    rw [skipGroupRest, skipGroupRest]
    refine reads_currentKind fun kind hkind => ?_
    split
    · exact reads_fail _
    · refine (reads_advance_succ h (hkind ▸ TokenKind.noConfusion)).bind fun _ cursor _ h => ?_
      exact (ih _ (by omega) (by omega) h).mono (Nat.le_succ n)
    · exact (reads_advance h).bind fun _ cursor _ h => reads_pure trivial h
    · refine (reads_advance_succ h (hkind ▸ TokenKind.noConfusion)).bind fun _ cursor _ h => ?_
      exact (ih _ (by omega) (by omega) h).mono (Nat.le_succ n)
    · rename_i heof _ _ _
      refine (reads_advance_succ h fun hcurrent => heof (hkind.symm.trans hcurrent)).bind fun _ cursor _ h => ?_
      exact (ih _ (by omega) (by omega) h).mono (Nat.le_succ n)

theorem reads_skipGroup (h : cursor.Within n) : Reads n (fun _ => True) (skipGroup cursor) (skipGroup cursor) := by
  rw [skipGroup]
  refine (reads_expect h).bind fun start cursor _ h => ?_
  exact reads_bounded h fun m steps hle h => reads_skipGroupRest start 0 hle hle h

theorem reads_skipTernary_succ {expression other : CursorM Unit} (h : cursor.Within (n + 1))
    (hexpression : ∀ cursor : Cursor, cursor.Within n →
      Reads n (fun _ => True) (expression cursor) (other cursor)) :
    Reads n (fun _ => True) (skipTernary expression cursor) (skipTernary other cursor) := by
  rw [skipTernary, skipTernary]
  refine (reads_expectKeyword_succ h).bind fun _ cursor _ h => ?_
  refine (reads_skipGroup h).bind fun _ cursor _ h => ?_
  refine (hexpression cursor h).bind fun _ cursor _ h => ?_
  exact (reads_expectKeyword h).bind fun _ cursor _ h => hexpression cursor h

theorem reads_skipRest {steps others first : Nat} {waiting : List TokenKind} (hsteps : n ≤ steps)
    (hothers : n ≤ others) (h : cursor.Within n) :
    Reads n (fun _ => True) (skipRest steps first waiting cursor) (skipRest others first waiting cursor) := by
  induction n generalizing steps others first waiting cursor with
  | zero => exact absurd h.length (Nat.not_lt_zero _)
  | succ n ih =>
    obtain ⟨steps, rfl⟩ := Nat.exists_eq_add_one.2 (Nat.lt_of_lt_of_le n.succ_pos hsteps)
    obtain ⟨others, rfl⟩ := Nat.exists_eq_add_one.2 (Nat.lt_of_lt_of_le n.succ_pos hothers)
    have hrest : ∀ waiting (cursor : Cursor), cursor.Within n → Reads (n + 1) (fun _ => True)
        (skipRest steps first waiting cursor) (skipRest others first waiting cursor) :=
      fun waiting cursor h => (ih (by omega) (by omega) h).mono (Nat.le_succ n)
    rw [skipRest, skipRest, bind_get, bind_get]
    cases hboundary : cursor.boundary first waiting.isEmpty with
    | ends => exact reads_pure trivial h
    | clash => exact reads_unexpectedCurrent
    | inside =>
      have hkind : cursor.current.kind ≠ .eof := Cursor.kind_ne_eof_of_inside hboundary
      dsimp only
      split
      · refine (reads_advance_succ h hkind).bind fun _ cursor _ h => ?_
        exact (reads_skipGroup h).bind fun _ cursor _ h => hrest _ cursor h
      split
      · refine (reads_skipTernary_succ h fun cursor h => ?_).bind fun _ cursor _ h => hrest _ cursor h
        refine (reads_skipLineBreaks h).bind fun _ cursor _ h => ?_
        rw [bind_get, bind_get]
        exact ih (by omega) (by omega) h
      split
      · exact (reads_lambda_succ h).bind fun _ cursor _ h => hrest _ cursor h
      · exact (reads_advance_succ h hkind).bind fun _ cursor _ h => hrest _ cursor h

theorem reads_skipExpression (h : cursor.Within n) :
    Reads n (fun _ => True) (skipExpression cursor) (skipExpression cursor) := by
  rw [skipExpression]
  refine (reads_skipLineBreaks h).bind fun _ cursor _ h => ?_
  rw [bind_get]
  exact reads_bounded h fun m steps hle h => reads_skipRest hle hle h

end CursorM

end GradualScript
