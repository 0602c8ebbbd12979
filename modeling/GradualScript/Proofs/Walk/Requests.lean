import GradualScript.Proofs.Break.Cursor
import GradualScript.Proofs.Expression.Shelter
import GradualScript.Proofs.Walk.Faults
import GradualScript.Proofs.Walk.Invariant
import GradualScript.Proofs.Walk.Spacing

/-!
# Requests to a cursor, one after another

A cursor is moved, tokens nearby are looked at, and expressions and statements are read and evaluated, in any order.
Whether each of these succeeds or fails, the cursor stays among its tokens and knows the line it is on, and it goes back
only where it is asked to.

* `Cursor.On` : the cursor is at an index of the tokens, with the token and the line of this index;
* `Request`, `Walk.after` : what can be asked for, and where it leads to;
* `position_seek` : a cursor goes to any index, and to the last token if there are fewer;
* `past_skipExpression`, `past_expression` : skipping and reading an expression take in a token at least, unless there
  is none left but line breaks;
* `requests_stay_on_tokens` : all of this after any requests.
-/

set_option autoImplicit false

namespace GradualScript

/-! ## Places -/

namespace Cursor

variable {cursor later : Cursor} {tokens : List Token}

/-- The cursor is at an index of the tokens. Its token and its line are those of the index, also in the table of all
lines, and what it looks at are the tokens before and behind the index. How the index changes with a move is said by
`position_skipWhile`, `position_advance` and `position_seek`. -/
structure On (tokens : List Token) (cursor : Cursor) : Prop where
  position : cursor.position < tokens.length
  current : tokens[cursor.position]? = some cursor.current
  line : cursor.line = Token.lineOf tokens cursor.position
  table : (Token.lineTable tokens)[cursor.position]? = some cursor.line
  previous? : cursor.previous? = (tokens.take cursor.position).reverse.find? (·.kind ≠ .newline)
  peek : cursor.peek = ((tokens.drop (cursor.position + 1)).find? (·.kind ≠ .newline)).getD cursor.current
  peekRaw : tokens[min (cursor.position + 1) (tokens.length - 1)]? = some cursor.peekRaw
  tokens : cursor.tokens = tokens

theorem getElem?_peekRaw (cursor : Cursor) :
    cursor.tokens[min (cursor.position + 1) (cursor.tokens.length - 1)]? = some cursor.peekRaw := by
  have hlength := length_tokens cursor
  rw [peekRaw]
  cases hrest : cursor.rest with
  | nil =>
    rw [hrest, List.length_nil] at hlength
    have hlast : min (cursor.position + 1) (cursor.tokens.length - 1) = cursor.position := by omega
    rw [hlast]
    exact cursor.getElem?_position
  | cons next rest =>
    rw [hrest, List.length_cons] at hlength
    have hnext : min (cursor.position + 1) (cursor.tokens.length - 1) = cursor.position + 1 := by omega
    rw [hnext, ← List.getElem?_drop, drop_position, hrest]
    rfl

theorem on_of_tokens (h : cursor.tokens = tokens) : cursor.On tokens := by
  subst h
  refine ⟨cursor.position_lt_length, cursor.getElem?_position, cursor.line_eq_lineOf, ?_, ?_, ?_,
    cursor.getElem?_peekRaw, rfl⟩
  · rw [Token.getElem?_lineTable _ _ cursor.position_lt_length, ← line_eq_lineOf]
  · rw [take_position, List.reverse_reverse]
    rfl
  · rw [← List.drop_drop, drop_position]
    rfl

theorem position_step_of_ne_nil (h : cursor.rest ≠ []) :
    cursor.step.position = cursor.position + 1 ∧ cursor.step.rest.length + 1 = cursor.rest.length := by
  unfold step
  split
  · rename_i hnil
    exact absurd hnil h
  · rename_i hrest
    rw [hrest]
    exact ⟨rfl, rfl⟩

theorem position_repeat_step {n : Nat} (h : n ≤ cursor.rest.length) :
    (Nat.repeat step n cursor).position = cursor.position + n := by
  induction n generalizing cursor with
  | zero => rfl
  | succ n ih =>
    have hne : cursor.rest ≠ [] := by
      rw [← List.length_pos_iff]
      omega
    obtain ⟨hposition, hrest⟩ := position_step_of_ne_nil hne
    rw [repeat_step_succ, ih (by omega), hposition]
    omega

theorem position_rewind (cursor : Cursor) :
    cursor.rewind.position = 0 ∧ cursor.rewind.rest.length = cursor.position + cursor.rest.length := by
  have hlength := length_tokens cursor
  unfold rewind
  split
  · rename_i hnil
    rw [hnil] at hlength
    cases hlength
  · rename_i token rest htokens
    rw [htokens] at hlength
    exact ⟨rfl, Nat.succ.inj hlength⟩

/-- A cursor goes to the index, or to the last token. -/
theorem position_seek (cursor : Cursor) (index : Nat) :
    (cursor.seek index).position = min index (cursor.tokens.length - 1) := by
  obtain ⟨hposition, hrest⟩ := position_rewind cursor
  have hlength := length_tokens cursor
  rw [seek, position_repeat_step (by omega), hposition]
  omega

/-- The first token that is no line break, from the cursor on. -/
theorem current_skipLineBreaks {token : Token}
    (h : (cursor.tokens.drop cursor.position).find? (·.kind ≠ .newline) = some token) :
    cursor.skipLineBreaks.current = token := by
  rw [drop_position] at h
  obtain ⟨before, current, rest⟩ := cursor
  change (skipFrom (· = .newline) before current rest).current = token
  fun_induction skipFrom (· = .newline) before current rest with
  | case1 before current =>
    rw [List.find?_singleton] at h
    split at h
    · exact Option.some.inj h
    · cases h
  | case2 before current next rest hnewline ih =>
    rw [List.find?_cons_of_neg (by simpa using hnewline)] at h
    exact ih h
  | case3 before current next rest hnewline =>
    rw [List.find?_cons_of_pos (by simpa using hnewline)] at h
    exact Option.some.inj h

end Cursor

/-! ## Expressions take in a token -/

namespace CursorM

open Cursor (Past past_advance kind_ne_eof_of_inside)

variable {cursor later : Cursor}

/-- Where an expression goes on, skipping it moves past the token. -/
theorem past_skipRest {steps first : Nat} {waiting : List TokenKind} (hend : cursor.Terminated)
    (hinside : cursor.boundary first waiting.isEmpty = .inside)
    (h : skipRest steps first waiting cursor = .ok () later) : cursor.Past later := by
  cases steps with
  | zero => cases h
  | succ steps =>
    have hkind := kind_ne_eof_of_inside hinside
    have hpast : cursor.Past cursor.advance := past_advance hend hkind
    have hrest : ∀ waiting, Advances (skipRest steps first waiting) := closed_advances.skipRest steps first
    rw [skipRest, bind_get, hinside] at h
    dsimp only at h
    split at h
    · obtain ⟨_, _, hadvance, h⟩ := bind_eq_ok.1 h
      cases hadvance
      obtain ⟨_, _, hgroup, h⟩ := bind_eq_ok.1 h
      exact (hrest _).past h (closed_advances.skipGroup.past hgroup hpast)
    split at h
    · obtain ⟨_, _, hternary, h⟩ := bind_eq_ok.1 h
      exact (hrest _).past h (past_skipTernary (advances_skipBranch steps) hend hternary)
    split at h
    · obtain ⟨_, _, hlambda, h⟩ := bind_eq_ok.1 h
      have hposition := (completes_lambda hend hkind hlambda).position
      exact (hrest _).past h ⟨hposition, hend.ahead (advances_lambda.ok hlambda)⟩
    · obtain ⟨_, _, hadvance, h⟩ := bind_eq_ok.1 h
      cases hadvance
      exact (hrest _).past h hpast

theorem past_skipExpression (hend : cursor.Terminated) (hkind : cursor.skipLineBreaks.current.kind ≠ .eof)
    (h : skipExpression cursor = .ok () later) : cursor.position < later.position := by
  have hahead : cursor.Ahead cursor.skipLineBreaks := Cursor.ahead_skipWhile cursor _
  change skipRest _ cursor.skipLineBreaks.position [] cursor.skipLineBreaks = .ok () later at h
  have hpast := past_skipRest (hend.ahead hahead) (Cursor.boundary_position hkind true) h
  exact Nat.lt_of_le_of_lt hahead.position hpast.position

end CursorM

namespace WalkM

variable {executor : Executor} {walk later : Walk}

/-- Where an expression goes on, reading it moves past the token. -/
theorem past_elements {steps first : Nat} {waiting : List TokenKind} {read : List Element}
    (hend : walk.cursor.Terminated) (hinside : walk.cursor.boundary first waiting.isEmpty = .inside)
    (h : elements executor steps first waiting walk = .ok read later) :
    walk.cursor.position < later.cursor.position := by
  cases steps with
  | zero => cases h
  | succ steps =>
    obtain ⟨_, _, hget, h⟩ := bind_eq_ok.1 h
    cases hget
    rw [hinside] at h
    obtain ⟨element, next, helement, h⟩ := bind_eq_ok.1 h
    obtain ⟨others, _, hothers, h⟩ := bind_eq_ok.1 h
    cases h
    have hread := readFrom_element forward_expressionBy stopsGuarded_expressionBy hend
      (Cursor.kind_ne_eof_of_inside hinside) helement
    have hahead := ((keeping_elements executor.respects_true first _).ok hothers).cursor
    exact Nat.lt_of_lt_of_le hread.position hahead.position

theorem past_expression {expression : Expression} (hend : walk.cursor.Terminated)
    (hkind : walk.cursor.skipLineBreaks.current.kind ≠ .eof)
    (h : WalkM.expression executor walk = .ok expression later) : walk.cursor.position < later.cursor.position := by
  have hahead : walk.cursor.Ahead walk.cursor.skipLineBreaks := Cursor.ahead_skipWhile walk.cursor _
  rw [WalkM.expression, bounded, bind_get, expressionWithin, expressionBy_start] at h
  obtain ⟨read, _, hread, h⟩ := bind_eq_ok.1 h
  cases h
  have hposition := past_elements (hend.ahead hahead) (Cursor.boundary_position hkind true) hread
  exact Nat.lt_of_le_of_lt hahead.position hposition

end WalkM

/-! ## Requests -/

/-- What can be asked for at a cursor. -/
inductive Request : Type 1 where
  /-- Moves to an index, or to the last token. -/
  | seek (index : Nat)
  /-- Looks at a token nearby, and moves nothing. -/
  | look
  | perform {α : Type} (operation : Operation α)

def Request.isSeek : Request → Bool
  | seek _ => true
  | _ => false

namespace Walk

/-- An operation as a program would do it: in the context as it is now, in as many steps as there are tokens to come. -/
def perform {α : Type} (walk : Walk) (operation : Operation α) : EStateM.Result Failure Walk α :=
  operation.run walk.context.executor (walk.cursor.rest.length + 1) walk

/-- Where a request leads to, whether it succeeds or fails. -/
def after (walk : Walk) : Request → Walk
  | .seek index => { walk with cursor := walk.cursor.seek index }
  | .look => walk
  | .perform operation => endState (walk.perform operation)

/-- Where requests lead to, one after another. -/
def afterAll (walk : Walk) (requests : List Request) : Walk :=
  requests.foldl after walk

variable {walk : Walk} {tokens : List Token} {α : Type}

/-- A walk that goes beside another one ends with functions of the same kind, and breaks no invariant. -/
theorem unbroken_of_goes {V : α → Prop} {k r n : Nat} {result other : EStateM.Result Failure Walk α}
    (h : WalkM.Goes (Context.Abreast (ScopeStack.Same Token.Terminated) Token.Terminated k r) Token.Terminated n V
      result other) :
    (endState other).context.BodiesIn Token.Terminated ∧
      ∀ failure later, other = .error failure later → failure.Plain := by
  cases h with
  | ok _ hstate =>
    obtain ⟨-, -, hcontext⟩ := hstate
    constructor
    · rw [endState, hcontext.eq]
      exact hcontext.bodiesIn
    · intro failure later herror
      cases herror
  | error hfailure hstate =>
    obtain ⟨-, hcontext⟩ := hstate
    constructor
    · rw [endState, hcontext.eq]
      exact hcontext.bodiesIn
    · rintro failure later ⟨⟩
      exact hfailure.plain

theorem unbroken_perform (hend : walk.cursor.Terminated) (h : walk.context.BodiesIn Token.Terminated)
    (operation : Operation α) :
    (endState (walk.perform operation)).context.BodiesIn Token.Terminated ∧
      ∀ failure later, walk.perform operation = .error failure later → failure.Plain :=
  unbroken_of_goes (goes_operation (fun _ => id) h (fun body => Nat.le_refl body.length) (Nat.le_refl _) hend
    (Nat.lt_succ_self _) operation)

theorem ahead_perform (walk : Walk) (operation : Operation α) :
    walk.cursor.Ahead (endState (walk.perform operation)).cursor :=
  (operation.keeping_run (Executor.steady_block _) walk).cursor

theorem Over.terminated {C : Context → Prop} (hend : Token.Terminated tokens) (h : walk.Over tokens C) :
    walk.cursor.Terminated := by
  unfold Cursor.Terminated
  rw [h.tokens]
  exact hend

/-- A request leads to the same tokens, in a context with such functions again. -/
theorem Over.after (hend : Token.Terminated tokens) (h : walk.Over tokens (·.BodiesIn Token.Terminated))
    (request : Request) : (walk.after request).Over tokens (·.BodiesIn Token.Terminated) := by
  cases request with
  | seek index => exact ⟨(Cursor.tokens_seek walk.cursor index).trans h.tokens, h.context⟩
  | look => exact h
  | perform operation =>
    refine ⟨(ahead_perform walk operation).tokens.trans h.tokens, ?_⟩
    exact (unbroken_perform (h.terminated hend) h.context operation).1

theorem Over.afterAll (hend : Token.Terminated tokens) (h : walk.Over tokens (·.BodiesIn Token.Terminated))
    (requests : List Request) : (walk.afterAll requests).Over tokens (·.BodiesIn Token.Terminated) := by
  induction requests generalizing walk with
  | nil => exact h
  | cons request rest ih => exact ih (h.after hend request)

theorem position_le_after (walk : Walk) {request : Request} (h : request.isSeek = false) :
    walk.cursor.position ≤ (walk.after request).cursor.position := by
  cases request with
  | seek index => cases h
  | look => exact Nat.le_refl _
  | perform operation => exact (ahead_perform walk operation).position

end Walk

/-- Tokens that end with the end of input make a cursor on the first of them. After any requests the cursor is at an
index of the tokens, and it knows the line there. Only a request for an index moves it back. Nothing that is performed
breaks an invariant, and an expression that is read or skipped takes in a token, unless there are only line breaks up to
the next end of input. -/
theorem requests_stay_on_tokens {tokens : List Token} {context : Context} (hend : Token.Terminated tokens)
    (hbodies : context.BodiesIn Token.Terminated) :
    ∃ start, Cursor.ofTokens? tokens = some start ∧ start.position = 0 ∧ ∀ requests : List Request,
      let walk := Walk.afterAll ⟨start, context⟩ requests
      walk.cursor.On tokens ∧
      (∀ request : Request, request.isSeek = false →
        walk.cursor.position ≤ (walk.after request).cursor.position) ∧
      (∀ index, (walk.after (.seek index)).cursor.position = min index (tokens.length - 1)) ∧
      (∀ {α : Type} (operation : Operation α) failure later, walk.perform operation = .error failure later →
        failure.Plain) ∧
      ∀ token, (tokens.drop walk.cursor.position).find? (·.kind ≠ .newline) = some token → token.kind ≠ .eof →
        (∀ expression later, WalkM.expression walk.context.executor walk = .ok expression later →
          walk.cursor.position < later.cursor.position) ∧
        ∀ later, CursorM.skipExpression walk.cursor = .ok () later → walk.cursor.position < later.position := by
  cases tokens with
  | nil => cases hend
  | cons first rest =>
    refine ⟨⟨[], first, rest⟩, Cursor.ofTokens?_of_terminated hend, rfl, fun requests => ?_⟩
    intro walk
    have hstart : Walk.Over (first :: rest) (·.BodiesIn Token.Terminated) ⟨⟨[], first, rest⟩, context⟩ := ⟨rfl, hbodies⟩
    have hover : walk.Over (first :: rest) (·.BodiesIn Token.Terminated) := hstart.afterAll hend requests
    have hterminated : walk.cursor.Terminated := hover.terminated hend
    refine ⟨Cursor.on_of_tokens hover.tokens, fun request => walk.position_le_after, fun index => ?_,
      fun operation => (Walk.unbroken_perform hterminated hover.context operation).2, fun token hfind hkind => ?_⟩
    · rw [← hover.tokens]
      exact Cursor.position_seek walk.cursor index
    · rw [← hover.tokens] at hfind
      rw [← Cursor.current_skipLineBreaks hfind] at hkind
      exact ⟨fun expression later => WalkM.past_expression hterminated hkind,
        fun later => CursorM.past_skipExpression hterminated hkind⟩

/-- A parenthesis that is not closed before a first end of input, and a bracket that was not opened before the last. -/
def brokenTokens : List Token :=
  [⟨.opening .round, "(", .null⟩, ⟨.newline, "\n", .null⟩, Token.eof, ⟨.int, "1", .null⟩,
    ⟨.closing .square, "]", .null⟩, Token.eof]

/-- The parenthesis is read up to the first end of input. From the token behind it on, skipping stops at the bracket. -/
theorem requests_stay_on_tokens_broken :
    Token.Terminated brokenTokens ∧ boxContext.BodiesIn Token.Terminated ∧
      ∃ start walk later, Cursor.ofTokens? brokenTokens = some start ∧
        walk = Walk.afterAll ⟨start, boxContext⟩ [.perform .expression, .seek 3] ∧ walk.cursor.On brokenTokens ∧
        walk.cursor.line = 1 ∧ CursorM.skipExpression walk.cursor = .ok () later ∧ 3 < later.position := by
  have hend : Token.Terminated brokenTokens := by decide
  obtain ⟨start, hstart, -, hrequests⟩ := requests_stay_on_tokens hend bodiesIn_boxContext
  obtain ⟨hon, -, -, -, htoken⟩ := hrequests [.perform .expression, .seek 3]
  cases hstart
  obtain ⟨-, hskip⟩ := htoken ⟨.int, "1", .null⟩ rfl nofun
  exact ⟨hend, bodiesIn_boxContext, _, _, _, rfl, rfl, hon, rfl, rfl, hskip _ rfl⟩

end GradualScript
