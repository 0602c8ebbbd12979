import GradualScript.Proofs.Program.Agreement
import GradualScript.Proofs.Tandem.Single

/-!
# What is returned

* `skipStatementBreaks_onto` : the cursor behind line breaks;
* `TokenKind.endsReturn` : what a `return` without a value can stand before;
* `returnStatement_onto`, `statementsFrom_onto_return` : line breaks behind `return` are not looked at;
* `OpensBlocks`, `statementsFrom_return` : the first statement that is reached through the braces of blocks;
* `execute_bareReturn` : a body that begins with `return`, or with blocks that do.
-/

set_option autoImplicit false

namespace GradualScript

open Cursor CursorM
open WalkM (evaluation nestedBlock returnStatement statement statementsFrom)

variable {executor : Executor} {context : Context}

/-! ## Cursors and breaks -/

namespace Cursor

variable {before breaks rest : List Token} {token : Token}

/-- Statements start at the same token, whether the line breaks before it have been passed or not. -/
theorem skipStatementBreaks_onto (before rest : List Token) (token : Token) :
    (onto before (token :: rest)).skipStatementBreaks = skipFrom TokenKind.isBreak before token rest := by
  induction rest generalizing before token with
  | nil => rfl
  | cons next rest ih =>
    by_cases hnewline : token.kind = .newline
    · rw [onto_newline hnewline (by simp), ih, skipFrom, hnewline]
      rfl
    · rw [onto_cons hnewline]
      rfl

/-- A break before statements makes no difference to where they start. -/
theorem skipStatementBreaks_onto_cons (htoken : token.kind.isBreak = true) (hne : rest ≠ []) :
    (onto before (token :: rest)).skipStatementBreaks = (onto (token :: before) rest).skipStatementBreaks := by
  cases rest with
  | nil => exact absurd rfl hne
  | cons next rest =>
    rw [skipStatementBreaks_onto, skipStatementBreaks_onto, skipFrom]
    exact if_pos htoken

end Cursor

/-! ## Return statements -/

/-- The kinds of tokens that a `return` without a value is seen to end at. A line break is not among them. -/
def TokenKind.endsReturn (kind : TokenKind) : Bool :=
  kind = .semicolon || kind.isStop

section Statement

variable {keyword next : Token} {before breaks rest : List Token}

theorem returnStatement_onto (hkeyword : keyword.isKeywordOf "return" = true)
    (hbreaks : ∀ token ∈ breaks, token.kind = .newline) (hnext : next.kind ≠ .newline) (later : Context) :
    returnStatement executor ⟨onto before (keyword :: (breaks ++ next :: rest)), later⟩ =
      (if next.kind.endsReturn then return .returned .unit else do return .returned (← evaluation executor) :
        WalkM Outcome) ⟨⟨breaks.reverse ++ keyword :: before, next, rest⟩, later⟩ := by
  have hkind := kind_of_isKeywordOf hkeyword
  have hends : (next.kind.isTerminator || decide (next.kind = .closing .curly)) = next.kind.endsReturn := by
    cases hcase : next.kind with
    | newline => exact absurd hcase hnext
    | closing shape => cases shape <;> rfl
    | _ => rfl
  rw [returnStatement, WalkM.bind_reading (advance_run_onto (by simp [hkind]) (by simp [hkind]) (by simp)),
    onto_newlines hbreaks hnext]
  show (if (next.kind.isTerminator || decide (next.kind = .closing .curly)) = true then _ else _ : WalkM Outcome) _ = _
  rw [hends]

theorem face_of_isKeywordOf {token : Token} {word : String} (h : token.isKeywordOf word = true) :
    token.face = .word word := by
  rw [Token.isKeywordOf, Bool.and_eq_true, decide_eq_true_iff, decide_eq_true_iff] at h
  rw [Token.face, h.1, h.2]
  rfl

/-- Statements that begin with `return` do nothing else. -/
theorem statementsFrom_onto_return {steps : Nat} {stop : TokenKind} {last : Item} {cursor : Cursor}
    (hcursor : cursor.skipStatementBreaks = onto before (keyword :: (breaks ++ next :: rest)))
    (hkeyword : keyword.isKeywordOf "return" = true) (hbreaks : ∀ token ∈ breaks, token.kind = .newline)
    (hnext : next.kind ≠ .newline) (hstop : stop.isStop = true) (later : Context) :
    statementsFrom executor (steps + 1) stop last ⟨cursor, later⟩ =
      (if next.kind.endsReturn then return .returned .unit else do return .returned (← evaluation executor) :
        WalkM Outcome) ⟨⟨breaks.reverse ++ keyword :: before, next, rest⟩, later⟩ := by
  have hstarts := startsOperand_of_keyword (kind_of_isKeywordOf hkeyword)
  rw [statementsFrom_starts hcursor hstarts hstop]
  have hstatement : statement executor (statementsFrom executor steps (.closing .curly) .unit)
      ⟨onto before (keyword :: (breaks ++ next :: rest)), later⟩ = _ :=
    (statement_return (face_of_isKeywordOf hkeyword) later).trans (returnStatement_onto hkeyword hbreaks hnext later)
  split at hstatement
  · rename_i hends
    rw [if_pos hends]
    exact bind_of_ok hstatement
  · rename_i hends
    rw [if_neg hends]
    cases hvalue : evaluation executor ⟨⟨breaks.reverse ++ keyword :: before, next, rest⟩, later⟩ with
    | ok item after =>
      rw [bind_of_ok hvalue] at hstatement ⊢
      exact bind_of_ok hstatement
    | error failure after =>
      rw [bind_of_error hvalue] at hstatement ⊢
      exact bind_of_error hstatement

end Statement

/-! ## Blocks around it -/

/-- What is done in a scope of its own depends on the run inside it only. -/
theorem WalkM.inScope_congr {body body' : WalkM Outcome} {cursor cursor' : Cursor}
    (h : body ⟨cursor, { context with scopes := context.scopes.push }⟩ =
      body' ⟨cursor', { context with scopes := context.scopes.push }⟩) :
    WalkM.inScope body ⟨cursor, context⟩ = WalkM.inScope body' ⟨cursor', context⟩ := by
  unfold WalkM.inScope
  dsimp only
  rw [h]

/-- A scope that is opened and left with nothing done leaves everything as it was. -/
theorem WalkM.inScope_of_same {body : WalkM Outcome} {cursor place : Cursor} {outcome : Outcome}
    (h : body ⟨cursor, { context with scopes := context.scopes.push }⟩ =
      .ok outcome ⟨place, { context with scopes := context.scopes.push }⟩) :
    WalkM.inScope body ⟨cursor, context⟩ = .ok outcome ⟨place, context⟩ := by
  show _ = WalkM.inScope (pure outcome) ⟨place, context⟩
  exact WalkM.inScope_congr h

/-- The tokens open blocks, with breaks between them. -/
def OpensBlocks (tokens : List Token) : Prop :=
  ∀ token ∈ tokens, token.kind = .opening .curly ∨ token.kind.isBreak = true

/-- A `return` without a value is reached through any number of blocks, and nothing is done on the way in or out. -/
theorem statementsFrom_return {keyword next : Token} {opened breaks rest : List Token} (hopened : OpensBlocks opened)
    (hkeyword : keyword.isKeywordOf "return" = true) (hbreaks : ∀ token ∈ breaks, token.kind = .newline)
    (hnext : next.kind.endsReturn = true) {steps : Nat} (hsteps : opened.length < steps) {stop : TokenKind}
    (hstop : stop.isStop = true) (last : Item) (before : List Token) {cursor : Cursor}
    (hcursor : cursor.skipStatementBreaks =
      (onto before (opened ++ keyword :: (breaks ++ next :: rest))).skipStatementBreaks) (later : Context) :
    ∃ place, statementsFrom executor steps stop last ⟨cursor, later⟩ = .ok (.returned .unit) ⟨place, later⟩ := by
  have hkind := kind_of_isKeywordOf hkeyword
  have hnewline : next.kind ≠ .newline := by
    intro hkind
    rw [hkind] at hnext
    cases hnext
  induction opened generalizing steps stop last before cursor later with
  | nil =>
    obtain ⟨steps, rfl⟩ : ∃ left, steps = left + 1 := ⟨steps - 1, by omega⟩
    rw [List.nil_append, skipStatementBreaks_onto, skipFrom_of_not (by rw [hkind]; rfl),
      ← onto_cons (by simp [hkind])] at hcursor
    refine ⟨⟨breaks.reverse ++ keyword :: before, next, rest⟩, ?_⟩
    rw [statementsFrom_onto_return hcursor hkeyword hbreaks hnewline hstop, if_pos hnext]
    rfl
  | cons token opened ih =>
    have hrest : OpensBlocks opened := fun token hmem => hopened token (List.mem_cons_of_mem _ hmem)
    rw [List.length_cons] at hsteps
    rcases hopened token (by simp) with hopening | hbreak
    · -- the block is run in a scope of its own, from behind the brace
      obtain ⟨steps, rfl⟩ : ∃ left, steps = left + 1 := ⟨steps - 1, by omega⟩
      have hstarts : startsOperand token = true := by
        rw [startsOperand, hopening]
        rfl
      have hkeyword' : token.kind ≠ .keyword := by simp [hopening]
      rw [List.cons_append, skipStatementBreaks_onto, skipFrom_of_not (by rw [hopening]; rfl),
        ← onto_cons (by simp [hopening])] at hcursor
      obtain ⟨place, hinside⟩ := ih hrest (by omega : opened.length < steps)
        (by rfl : (TokenKind.closing .curly).isStop = true) .unit (token :: before) rfl
        { later with scopes := later.scopes.push }
      refine ⟨place, ?_⟩
      have hblock : statement executor (statementsFrom executor steps (.closing .curly) .unit)
          ⟨onto before (token :: (opened ++ keyword :: (breaks ++ next :: rest))), later⟩ =
            .ok (.returned .unit) ⟨place, later⟩ := by
        rw [statement_onto (by simp [hopening]), WalkM.isKeywordOf_eq_false hkeyword',
          WalkM.isKeywordOf_eq_false hkeyword', WalkM.isKeywordOf_eq_false hkeyword', if_neg (by simp),
          if_neg (by simp), if_pos hopening, nestedBlock,
          WalkM.bind_reading (advance_run_onto (by simp [hopening]) (by simp [hopening]) (by simp)),
          bind_of_ok (WalkM.inScope_of_same hinside)]
        rfl
      rw [statementsFrom_starts hcursor hstarts hstop, bind_of_ok hblock]
      rfl
    · rw [List.cons_append, skipStatementBreaks_onto_cons hbreak (by simp)] at hcursor
      exact ih hrest (by omega) hstop last (token :: before) hcursor later

/-! ## Bodies -/

theorem Token.terminated_append {next : Token} {rest : List Token} (h : Terminated (next :: rest))
    (tokens : List Token) : Terminated (tokens ++ next :: rest) := by
  rw [Terminated, List.getLast?_append_cons]
  exact h

theorem ContextM.walk_congr {body body' : WalkM Outcome} {cursor cursor' : Cursor}
    (h : body ⟨cursor, context⟩ = body' ⟨cursor', context⟩) :
    ContextM.walk cursor body context = ContextM.walk cursor' body' context := by
  unfold ContextM.walk
  rw [h]

/-- A body is run as statements in a scope of its own, from its first token on. -/
theorem executor_of_terminated {token : Token} {rest : List Token} (h : Token.Terminated (token :: rest))
    (context : Context) :
    context.executor (token :: rest) [] context =
      ContextM.walk ⟨[], token, rest⟩
        (WalkM.inScope (statementsFrom (Executor.block context.room) (rest.length + 1) .eof .unit)) context := by
  rw [Context.executor, ← Context.room, Executor.block, Cursor.ofTokens?_of_terminated h]
  show ContextM.inScope (ContextM.walk _ _) context = _
  rw [ContextM.inScope_walk]
  exact ContextM.walk_congr (WalkM.inScope_congr rfl)

/-- What a body returns that begins with `return`, line breaks apart. If the next token ends the statement, then that is
unit, whatever stands behind it, also when the statement is in blocks that are opened before it; nothing is changed.
Otherwise it is the value of the expression at the next token, on whatever line that is. -/
theorem execute_bareReturn (context : Context) (keyword next : Token) (breaks rest : List Token)
    (hkeyword : keyword.isKeywordOf "return" = true) (hbreaks : ∀ token ∈ breaks, token.kind = .newline)
    (hnext : next.kind ≠ .newline) (hend : Token.Terminated (next :: rest)) :
    (next.kind.endsReturn = true → ∀ opened, OpensBlocks opened →
      context.executor (opened ++ keyword :: (breaks ++ next :: rest)) [] context = .ok (.returned .unit) context) ∧
    (next.kind.endsReturn = false →
      context.executor (keyword :: (breaks ++ next :: rest)) [] context =
        ContextM.walk ⟨breaks.reverse ++ [keyword], next, rest⟩
          (WalkM.inScope do return .returned (← evaluation (Executor.block context.room))) context) := by
  have hbody : Token.Terminated (keyword :: (breaks ++ next :: rest)) :=
    Token.terminated_append hend (keyword :: breaks)
  have hkind := kind_of_isKeywordOf hkeyword
  constructor
  · intro hends opened hopened
    obtain ⟨token, tokens, htokens⟩ := List.exists_cons_of_ne_nil
      (List.append_ne_nil_of_right_ne_nil opened (List.cons_ne_nil keyword (breaks ++ next :: rest)))
    have hterminated := Token.terminated_append hbody opened
    have hlength : opened.length < tokens.length + 1 := by
      have hlengths := congrArg List.length htokens
      simp at hlengths
      omega
    have hcursor : (Cursor.mk [] token tokens).skipStatementBreaks =
        (onto [] (opened ++ keyword :: (breaks ++ next :: rest))).skipStatementBreaks := by
      rw [htokens, skipStatementBreaks_onto]
      rfl
    obtain ⟨place, hrun⟩ := statementsFrom_return hopened hkeyword hbreaks hends hlength
      (by rfl : TokenKind.eof.isStop = true) .unit [] hcursor { context with scopes := context.scopes.push }
    rw [htokens] at hterminated
    rw [htokens, executor_of_terminated hterminated, ContextM.walk, WalkM.inScope_of_same hrun]
  · intro hvalue
    have hcursor : (Cursor.mk [] keyword (breaks ++ next :: rest)).skipStatementBreaks =
        onto [] (keyword :: (breaks ++ next :: rest)) := by
      rw [onto_cons (by simp [hkind])]
      exact skipFrom_of_not (by rw [hkind]; rfl)
    rw [executor_of_terminated hbody]
    refine ContextM.walk_congr (WalkM.inScope_congr ?_)
    rw [statementsFrom_onto_return hcursor hkeyword hbreaks hnext rfl, if_neg (by simp [hvalue])]

/-- A closing brace and tokens that no program goes on with. -/
def braceAndRubbish : List Token :=
  [⟨.closing .curly, "\x7d", .null⟩, ⟨.closing .round, ")", .null⟩, ⟨.name, "x", .null⟩, ⟨.name, "x", .null⟩, Token.eof]

/-- In two blocks, `return` stands before two line breaks and a brace: it gives unit, and the tokens behind it are not
looked at. -/
theorem execute_bareReturn_nested :
    Token.Terminated braceAndRubbish ∧
      (default : Context).executor
        (⟨.opening .curly, "\x7b", .null⟩ :: ⟨.semicolon, ";", .null⟩ :: ⟨.opening .curly, "\x7b", .null⟩ ::
          ⟨.keyword, "return", .null⟩ :: ⟨.newline, "\n", .null⟩ :: ⟨.newline, "\n", .null⟩ :: braceAndRubbish) []
        default = .ok (.returned .unit) default := by
  have hend : Token.Terminated braceAndRubbish := by decide
  refine ⟨hend, ?_⟩
  exact (execute_bareReturn default ⟨.keyword, "return", .null⟩ _
    [⟨.newline, "\n", .null⟩, ⟨.newline, "\n", .null⟩] _ (by decide) (by decide) (by decide) hend).1 rfl
    [⟨.opening .curly, "\x7b", .null⟩, ⟨.semicolon, ";", .null⟩, ⟨.opening .curly, "\x7b", .null⟩]
    (by unfold OpensBlocks; decide)

/-- A line break behind `return` does not end it: what is on the next line is returned. -/
theorem execute_return_nextLine :
    (default : Context).executor
      [⟨.keyword, "return", .null⟩, ⟨.newline, "\n", .null⟩, ⟨.int, "5", .null⟩, Token.eof] [] default =
        .ok (.returned (.int 5)) default :=
  rfl

end GradualScript
