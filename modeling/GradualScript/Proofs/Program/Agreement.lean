import GradualScript.Proofs.Program.Statements

/-!
# Programs do what they mean

* `statementsFrom_starts`, `statementsFrom_stops` : one round of a list of statements;
* `ends_statement`, `ends_block` : all statements;
* `execute_program` : a program has the outcome of its meaning, or the error, and leaves the scopes of its meaning.
-/

set_option autoImplicit false

namespace GradualScript

open Cursor CursorM
open WalkM (statement statementsFrom)

variable {executor : Executor} {context : Context}

/-! ## All statements -/

theorem not_isStop_of_startsOperand {token : Token} (h : startsOperand token = true) : token.kind.isStop = false := by
  obtain ⟨kind, text, span⟩ := token
  cases kind <;> first | rfl | cases h

section Loop

variable {steps : Nat} {stop : TokenKind} {last : Item} {cursor : Cursor} {before rest : List Token} {token : Token}

/-- Statements go on with a token that starts one. -/
theorem statementsFrom_starts (hcursor : cursor.skipStatementBreaks = onto before (token :: rest))
    (hstarts : startsOperand token = true) (hstop : stop.isStop = true) (later : Context) :
    statementsFrom executor (steps + 1) stop last ⟨cursor, later⟩ = (do
      match ← statement executor (statementsFrom executor steps (.closing .curly) .unit) with
      | .returned item => return .returned item
      | .completed item => do
        WalkM.statementEnd
        statementsFrom executor steps stop item : WalkM Outcome) ⟨onto before (token :: rest), later⟩ := by
  have hskip : CursorM.skipStatementBreaks cursor = .ok () (onto before (token :: rest)) := by
    rw [← hcursor]
    rfl
  have hkind : token.kind ≠ stop := by
    intro hkind
    rw [← hkind, not_isStop_of_startsOperand hstarts] at hstop
    cases hstop
  rw [statementsFrom, WalkM.bind_reading hskip,
    WalkM.bind_reading (currentKind_onto (ne_of_startsOperand hstarts).1), if_neg hkind]
  exact congrFun (if_neg (not_ending_of_startsOperand hstarts true).1) _

theorem statementsFrom_stops (hcursor : cursor.skipStatementBreaks = onto before (token :: rest))
    (hstop : token.kind.isStop = true) (later : Context) :
    statementsFrom executor (steps + 1) token.kind last ⟨cursor, later⟩ =
      .ok (.completed last) ⟨onto before (token :: rest), later⟩ := by
  have hskip : CursorM.skipStatementBreaks cursor = .ok () (onto before (token :: rest)) := by
    rw [← hcursor]
    rfl
  have hnewline : token.kind ≠ .newline := ne_of_not_isBreak (ne_of_isStop hstop).1
  rw [statementsFrom, WalkM.bind_reading hskip, WalkM.bind_reading (currentKind_onto hnewline), if_pos rfl]
  rfl

end Loop

variable {registry : Registry}

theorem started_keyword {token : Token} {word : String} (h : token.face = .word word) (rest : List Token) :
    Started (token :: rest) := by
  have hkind : token.kind = .keyword := Token.kind_of_face h
  exact ⟨token, rest, rfl, startsOperand_of_keyword hkind, by simp [hkind]⟩

theorem started_statement : ∀ (statement : Statement) {tokens : List Token}, statement.Valid registry →
    tokens.map Token.face = statement.faces → Started tokens
  | .declaration _ _ _ _, _, _, h => by
    obtain ⟨keyword, rest, rfl, hkeyword, -⟩ := List.map_eq_cons_iff.1 h
    exact started_keyword hkeyword rest
  | .exit (some _), _, _, h => by
    obtain ⟨keyword, rest, rfl, hkeyword, -⟩ := List.map_eq_cons_iff.1 h
    exact started_keyword hkeyword rest
  | .exit none, _, _, h => by
    obtain ⟨keyword, rest, rfl, hkeyword, -⟩ := List.map_eq_cons_iff.1 h
    exact started_keyword hkeyword rest
  | .block _, _, _, h => by
    obtain ⟨opening, rest, rfl, hopening, -⟩ := List.map_eq_cons_iff.1 h
    have hkind : opening.kind = .opening .curly := Token.kind_of_face hopening
    refine ⟨opening, rest, rfl, ?_, by simp [hkind]⟩
    rw [startsOperand, hkind]
    rfl
  | .expression value, _, hvalid, h => started_phrase value hvalid h

theorem begins_block (block : Block) {tokens : List Token} (hvalid : block.Valid registry)
    (h : tokens.map Token.face = block.faces) {stopper : Token} (hstop : stopper.kind.isStop = true)
    (after : List Token) : Begins (tokens ++ stopper :: after) := by
  cases block with
  | nil =>
    obtain rfl := List.map_eq_nil_iff.1 h
    exact begins_stop hstop after
  | cons statement ending rest =>
    obtain ⟨first, others, rfl, hfirst, -⟩ := List.map_eq_append_iff.1 h
    exact ((started_statement statement hvalid.1 hfirst).append others).begins _

/-- What ends a statement in a block. -/
theorem closes_ending {ending : Ending} {rest : Block} {breaks others : List Token}
    (hbreaks : breaks.map Token.face = ending.faces) (hvalid : rest.Valid registry)
    (hrest : others.map Token.face = rest.faces) (hnothing : ending = .nothing → rest.isEmpty = true)
    {stopper : Token} (hstop : stopper.kind.isStop = true) (after : List Token) :
    Closes breaks (others ++ stopper :: after) := by
  have hbegins := begins_block rest hvalid hrest hstop after
  cases ending with
  | newline =>
    obtain ⟨token, rfl, htoken⟩ := List.map_eq_singleton_iff.1 hbreaks
    exact .newline (Token.kind_of_face htoken) hbegins
  | semicolon =>
    obtain ⟨token, rfl, htoken⟩ := List.map_eq_singleton_iff.1 hbreaks
    exact .semicolon (Token.kind_of_face htoken) hbegins
  | nothing =>
    obtain rfl := List.map_eq_nil_iff.1 hbreaks
    cases rest with
    | nil =>
      obtain rfl := List.map_eq_nil_iff.1 hrest
      exact .nothing hstop
    | cons _ _ _ => cases hnothing rfl

theorem ne_newline_of_ending {ending : Ending} {breaks : List Token} (h : breaks.map Token.face = ending.faces)
    (hne : ending ≠ .newline) : ∀ token ∈ breaks, token.kind ≠ .newline := by
  intro token hmem
  cases ending with
  | newline => exact absurd rfl hne
  | semicolon =>
    obtain ⟨mark, rfl, hmark⟩ := List.map_eq_singleton_iff.1 h
    obtain rfl := List.mem_singleton.1 hmem
    rw [Token.kind_of_face hmark]
    exact TokenKind.noConfusion
  | nothing =>
    obtain rfl := List.map_eq_nil_iff.1 h
    cases hmem

/-- A token that ends a statement, if it is no line break. -/
theorem Closes.head {breaks following : List Token} (h : Closes breaks following)
    (hbreaks : ∀ token ∈ breaks, token.kind ≠ .newline) : ∃ token rest, breaks ++ following = token :: rest ∧
      token.kind ≠ .newline ∧ (token.kind.isTerminator || decide (token.kind = .closing .curly)) = true := by
  cases h with
  | @newline token _ hkind _ => exact absurd hkind (hbreaks token (List.mem_singleton_self _))
  | semicolon hkind _ => exact ⟨_, _, rfl, by simp [hkind], by rw [hkind]; rfl⟩
  | nothing hstop =>
    refine ⟨_, _, rfl, ne_of_not_isBreak (ne_of_isStop hstop).1, ?_⟩
    rcases TokenKind.isStop_iff.1 hstop with hkind | hkind <;> rw [hkind] <;> rfl

mutual

theorem ends_statement (hsteady : executor.Steady) : ∀ (statement : Statement) {tokens breaks following : List Token},
    statement.Valid context.registry → tokens.map Token.face = statement.faces → Closes breaks following →
    (statement.isBareExit = true → ∀ token ∈ breaks, token.kind ≠ .newline) →
    ∀ (steps : Nat) (before : List Token) (scopes : ScopeStack),
    (tokens ++ (breaks ++ following)).length ≤ steps + 1 →
    Ends context (statement.run context.registry scopes) (onto (tokens.reverse ++ before) (breaks ++ following))
      (WalkM.statement executor (statementsFrom executor steps (.closing .curly) .unit)
        ⟨onto before (tokens ++ (breaks ++ following)), context.withScopes scopes⟩)
  | .declaration _ _ _ _, _, _, _, hvalid, h, hcloses, _, _, before, scopes, _ =>
    (gives_declaration hsteady hvalid h hcloses.stops before scopes).ends
  | .exit (some _), _, _, _, hvalid, h, hcloses, _, _, before, scopes, _ =>
    (gives_return hsteady hvalid h hcloses.stops before scopes).ends
  | .exit none, _, _, _, _, h, hcloses, hbare, _, before, scopes, _ => by
    obtain ⟨token, rest, hfollowing, hnewline, hends⟩ := hcloses.head (hbare rfl)
    rw [hfollowing]
    exact (gives_bareReturn h hnewline hends before scopes).ends
  | .block body, _, breaks, following, hvalid, h, hcloses, _, steps, before, scopes, hsteps => by
    obtain ⟨opening, _, rfl, hopening, h⟩ := List.map_eq_cons_iff.1 h
    obtain ⟨tokens, _, rfl, hbody, h⟩ := List.map_eq_append_iff.1 h
    obtain ⟨closing, rfl, hclosing⟩ := List.map_eq_singleton_iff.1 h
    have hclosing : closing.kind = .closing .curly := Token.kind_of_face hclosing
    have hstop : closing.kind.isStop = true := by
      rw [hclosing]
      rfl
    have hshape : opening :: (tokens ++ [closing]) ++ (breaks ++ following) =
        opening :: (tokens ++ closing :: (breaks ++ following)) := by simp
    have hplace : (opening :: (tokens ++ [closing])).reverse ++ before =
        closing :: (tokens.reverse ++ opening :: before) := by simp
    have hbegins := begins_block body hvalid hbody hstop (breaks ++ following)
    rw [hshape] at hsteps ⊢
    rw [hplace]
    refine ends_nestedBlock hsteady (Token.kind_of_face hopening) hclosing hcloses.stops.clear.ne_nil ?_
    have hends := ends_block hsteady body hvalid hbody hstop (breaks ++ following) steps .unit
      (opening :: before) scopes.push (hbegins.skipStatementBreaks _) (by simp at hsteps ⊢; omega)
    rw [hclosing] at hends
    exact hends
  | .expression value, _, _, _, hvalid, h, hcloses, _, _, before, scopes, _ => by
    rw [statement_phrase value hvalid h]
    exact (gives_evaluation hsteady value hvalid h hcloses.stops before scopes).map.ends

theorem ends_block (hsteady : executor.Steady) : ∀ (block : Block) {tokens : List Token} {stopper : Token},
    block.Valid context.registry → tokens.map Token.face = block.faces → stopper.kind.isStop = true →
    ∀ (after : List Token) (steps : Nat) (last : Item) {cursor : Cursor} (before : List Token) (scopes : ScopeStack),
    cursor.skipStatementBreaks = onto before (tokens ++ stopper :: after) →
    (tokens ++ stopper :: after).length ≤ steps →
    Ends context (block.run context.registry last scopes) (onto (tokens.reverse ++ before) (stopper :: after))
      (statementsFrom executor steps stopper.kind last ⟨cursor, context.withScopes scopes⟩)
  | .nil, _, _, _, h, hstop, after, steps, last, _, before, scopes, hcursor, hsteps => by
    obtain rfl := List.map_eq_nil_iff.1 h
    obtain ⟨steps, rfl⟩ : ∃ left, steps = left + 1 := ⟨steps - 1, by simp at hsteps; omega⟩
    exact ⟨_, statementsFrom_stops hcursor hstop _, fun _ _ => rfl⟩
  | .cons statement ending rest, _, stopper, hvalid, h, hstop, after, steps, last, _, before, scopes, hcursor,
      hsteps => by
    obtain ⟨hvalid, hnothing, hbare, hvalid'⟩ := hvalid
    obtain ⟨tokens, _, rfl, hstatement, h⟩ := List.map_eq_append_iff.1 h
    obtain ⟨breaks, others, rfl, hbreaks, hrest⟩ := List.map_eq_append_iff.1 h
    obtain ⟨steps, rfl⟩ : ∃ left, steps = left + 1 := ⟨steps - 1, by simp at hsteps; omega⟩
    have hcloses := closes_ending hbreaks hvalid' hrest hnothing hstop after
    have hbare' : statement.isBareExit = true → ∀ token ∈ breaks, token.kind ≠ .newline :=
      fun hexit => ne_newline_of_ending hbreaks (hbare hexit)
    have hshape : tokens ++ (breaks ++ others) ++ stopper :: after =
        tokens ++ (breaks ++ (others ++ stopper :: after)) := by simp
    have hplace : (tokens ++ (breaks ++ others)).reverse ++ before =
        others.reverse ++ (breaks.reverse ++ (tokens.reverse ++ before)) := by simp
    rw [hshape] at hcursor hsteps
    rw [hplace]
    have hends := ends_statement hsteady statement hvalid hstatement hcloses hbare' steps before scopes hsteps
    have hstarted := started_statement statement hvalid hstatement
    have hlength : 0 < tokens.length := by
      obtain ⟨first, rest, rfl, -⟩ := hstarted
      exact Nat.succ_pos _
    obtain ⟨first, firsts, hfirst, hstarts, -⟩ := hstarted.append (breaks ++ (others ++ stopper :: after))
    -- from here on only the first token matters to the loop
    rw [hfirst] at hcursor hends
    rw [statementsFrom_starts hcursor hstarts hstop]
    refine Follows.bind (hends.imp (fun _ _ => Fails.bind) ?_)
    rintro outcome later ⟨cursor, hrun, hcompleted⟩
    rw [bind_of_ok hrun]
    cases outcome with
    | returned item => exact ⟨cursor, rfl, fun _ heq => by cases heq⟩
    | completed item =>
      -- the cursor is behind a line break but on a semicolon; the next round skips both alike
      obtain rfl := hcompleted item rfl
      dsimp only
      rw [bind_of_ok (hcloses.statementEnd _ _)]
      exact ends_block hsteady rest hvalid' hrest hstop after steps item _ later (hcloses.skipStatementBreaks _)
        (by simp at hsteps ⊢; omega)

end

/-! ## Programs -/

/-- The tokens of a program make a cursor. -/
theorem ofTokens?_program (program : Block) {tokens : List Token} (hvalid : program.Valid registry)
    (h : tokens.map Token.face = program.faces ++ [.mark .eof]) : ofTokens? tokens = some (onto [] tokens) := by
  obtain ⟨body, _, rfl, hbody, h⟩ := List.map_eq_append_iff.1 h
  obtain ⟨stopper, rfl, hstopper⟩ := List.map_eq_singleton_iff.1 h
  have hkind : stopper.kind = .eof := Token.kind_of_face hstopper
  have hbegins := begins_block program hvalid hbody (by rw [hkind]; rfl : stopper.kind.isStop = true) []
  obtain ⟨first, rest, htokens, hbreak, -⟩ := hbegins
  have hlast : stopper = rest.getLastD first := by
    have hlast := congrArg (List.getLastD · first) htokens
    rw [List.getLastD_concat, List.getLastD_cons] at hlast
    exact hlast
  rw [htokens, onto_cons (ne_of_not_isBreak hbreak), ofTokens?, ← hlast, if_pos hkind]

theorem ends_statements (hsteady : executor.Steady) (program : Block) {tokens : List Token}
    (hvalid : program.Valid context.registry) (h : tokens.map Token.face = program.faces ++ [.mark .eof])
    (scopes : ScopeStack) : ∃ place, Ends context (program.run context.registry .unit scopes) place
      (WalkM.statements executor ⟨onto [] tokens, context.withScopes scopes⟩) := by
  obtain ⟨body, _, rfl, hbody, h⟩ := List.map_eq_append_iff.1 h
  obtain ⟨stopper, rfl, hstopper⟩ := List.map_eq_singleton_iff.1 h
  have hkind : stopper.kind = .eof := Token.kind_of_face hstopper
  have hstop : stopper.kind.isStop = true := by
    rw [hkind]
    rfl
  have hbegins := begins_block program hvalid hbody hstop []
  have hends := ends_block hsteady program hvalid hbody hstop [] _ .unit [] scopes (hbegins.skipStatementBreaks [])
    (Nat.le_refl _)
  obtain ⟨first, rest, htokens, hbreak, -⟩ := hbegins
  rw [hkind, htokens, onto_cons (ne_of_not_isBreak hbreak)] at hends
  rw [htokens, onto_cons (ne_of_not_isBreak hbreak)]
  exact ⟨_, hends⟩

theorem ContextM.inScope_walk (cursor : Cursor) (body : WalkM Outcome) :
    ContextM.inScope (ContextM.walk cursor body) = ContextM.walk cursor (WalkM.inScope body) := by
  funext context
  unfold ContextM.inScope ContextM.walk WalkM.inScope
  dsimp only
  cases body ⟨cursor, { context with scopes := context.scopes.push }⟩ with
  | ok outcome after | error failure after =>
    dsimp only
    cases hpop : ContextM.popScope after.context with
    | ok _ later =>
      have hpop' : WalkM.ofContext ContextM.popScope after = .ok () { after with context := later } := by
        rw [WalkM.ofContext, hpop]
      rw [bind_of_ok hpop, bind_of_ok hpop']
      rfl
    | error failure later =>
      have hpop' : WalkM.ofContext ContextM.popScope after = .error failure { after with context := later } := by
        rw [WalkM.ofContext, hpop]
      rw [bind_of_error hpop, bind_of_error hpop']

theorem Executor.block_program (program : Block) {tokens : List Token} (hvalid : program.Valid registry)
    (h : tokens.map Token.face = program.faces ++ [.mark .eof]) (levels : Nat) :
    Executor.block (levels + 1) tokens [] =
      ContextM.walk (onto [] tokens) (WalkM.inScope (WalkM.statements (Executor.block levels))) := by
  rw [Executor.block, ofTokens?_program program hvalid h, ← ContextM.inScope_walk]
  rfl

/-- A program that is given as tokens has the outcome of its meaning, or the error, and leaves the scopes of its
meaning. -/
theorem execute_program (program : Block) (context : Context) (tokens : List Token)
    (hvalid : program.Valid context.registry) (htokens : tokens.map Token.face = program.faces ++ [.mark .eof]) :
    match program.execute context.registry context.scopes with
    | .ok outcome scopes => context.executor tokens [] context = .ok outcome { context with scopes }
    | .error kind scopes =>
      ∃ line, context.executor tokens [] context = .error (.error ⟨kind, line⟩) { context with scopes } := by
  have hsteady := Executor.steady_block (context.config.maxCallDepth - context.callDepth)
  obtain ⟨place, hends⟩ := ends_statements hsteady program hvalid htokens context.scopes.push
  have hprogram : Ends context (program.execute context.registry context.scopes) place
      (WalkM.inScope (WalkM.statements _) ⟨onto [] tokens, context⟩) :=
    ends_inScope (WalkM.growing_statements hsteady) hends
  rw [Context.executor, Executor.block_program program hvalid htokens, ContextM.walk]
  cases hmeaning : program.execute context.registry context.scopes with
  | ok outcome scopes =>
    rw [hmeaning] at hprogram
    obtain ⟨cursor, hrun, -⟩ := hprogram
    rw [hrun]
    rfl
  | error kind scopes =>
    rw [hmeaning] at hprogram
    obtain ⟨line, cursor, hrun⟩ := hprogram
    rw [hrun]
    exact ⟨line, rfl⟩

/-- `const was: Bool = on`, then `{ on = !on; return negate(on) ^ was }`. -/
def switchingProgram : Block :=
  .cons (.declaration false "was" (some "Bool") (.term (.name "on"))) .newline
    (.cons (.block
      (.cons (.expression (.assignment "on" (.term (.unary .not (.name "on"))))) .semicolon
        (.cons (.exit (some (.term (.binary .xor (.call "negate" [.term (.name "on")]) (.name "was")))))
          .nothing .nil))) .nothing .nil)

def switchingTokens : List Token :=
  (switchingProgram.faces ++ [Face.mark .eof]).map fun face : Face => ⟨face.kind, face.text, .null⟩

/-- A host that provides `negate` and a global variable `on`. -/
def switchingContext (on : Bool) : Context where
  scopes := ⟨[⟨"on", true, .any, .bool on⟩], []⟩
  registry := Registry.empty.registerFunction "negate" fun
    | [.bool value] => .ok (.bool !value)
    | _ => .error (.notCallable "negate")
  config := default
  callDepth := 0

/-- The program changes the global variable, and its constant is gone at the end. -/
theorem execute_program_switching :
    switchingProgram.Valid (switchingContext true).registry ∧
      switchingTokens.map Token.face = switchingProgram.faces ++ [.mark .eof] ∧
      (switchingContext true).executor switchingTokens [] (switchingContext true) =
        .ok (.returned (.bool false)) (switchingContext false) := by
  have hvalid : switchingProgram.Valid (switchingContext true).registry := by decide
  have htokens : switchingTokens.map Token.face = switchingProgram.faces ++ [.mark .eof] := rfl
  have hmeaning : switchingProgram.execute (switchingContext true).registry (switchingContext true).scopes =
      .ok (.returned (.bool false)) (switchingContext false).scopes := rfl
  have hprogram := execute_program switchingProgram (switchingContext true) switchingTokens hvalid htokens
  rw [hmeaning] at hprogram
  exact ⟨hvalid, htokens, hprogram⟩

end GradualScript
