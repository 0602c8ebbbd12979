import GradualScript.Proofs.Program.Evaluation

/-!
# Statements do what they mean

* `Begins`, `Closes` : where a statement or the end of a block begins, and what ends a statement there;
* `Ends` : a run of statements that ends as a meaning does;
* `gives_declaration`, `gives_return`, `gives_bareReturn`, `ends_nestedBlock` : one lemma for each kind of statement.
-/

set_option autoImplicit false

namespace GradualScript

open Cursor CursorM

variable {executor : Executor} {context : Context}

/-! ## Between statements -/

/-- The kinds of tokens that end a block or a program. -/
def TokenKind.isStop (kind : TokenKind) : Bool :=
  kind = .eof || kind = .closing .curly

theorem TokenKind.isStop_iff {kind : TokenKind} : kind.isStop = true ↔ kind = .eof ∨ kind = .closing .curly := by
  rw [isStop, Bool.or_eq_true, decide_eq_true_iff, decide_eq_true_iff]

/-- The tokens begin with a statement, or with the end of the statements. -/
def Begins (tokens : List Token) : Prop :=
  ∃ first rest, tokens = first :: rest ∧ first.kind.isBreak = false ∧
    (ending first.kind = true ∨ startsOperand first = true) ∧ first.kind ≠ .opening .square

theorem ne_of_isStop {token : Token} (h : token.kind.isStop = true) :
    token.kind.isBreak = false ∧ ending token.kind = true ∧ token.kind ≠ .opening .square := by
  rcases TokenKind.isStop_iff.1 h with hkind | hkind <;> rw [hkind] <;> exact ⟨rfl, rfl, by simp⟩

theorem ne_of_not_isBreak {token : Token} (h : token.kind.isBreak = false) : token.kind ≠ .newline := by
  intro hkind
  rw [hkind] at h
  cases h

theorem Started.begins {tokens : List Token} (h : Started tokens) (others : List Token) :
    Begins (tokens ++ others) := by
  obtain ⟨first, rest, rfl, hstarts, hsquare⟩ := h
  refine ⟨first, rest ++ others, rfl, ?_, .inr hstarts, hsquare⟩
  obtain ⟨kind, text, span⟩ := first
  cases kind <;> first | rfl | cases hstarts

theorem begins_stop {stopper : Token} (h : stopper.kind.isStop = true) (after : List Token) :
    Begins (stopper :: after) := by
  obtain ⟨hbreak, hending, hsquare⟩ := ne_of_isStop h
  exact ⟨stopper, after, rfl, hbreak, .inl hending, hsquare⟩

/-- Where a statement begins, nothing is skipped. -/
theorem Begins.skipStatementBreaks {tokens : List Token} (h : Begins tokens) (before : List Token) :
    (onto before tokens).skipStatementBreaks = onto before tokens := by
  obtain ⟨first, rest, rfl, hbreak, -⟩ := h
  rw [onto_cons (ne_of_not_isBreak hbreak)]
  exact skipFrom_of_not hbreak

/-- The tokens `breaks` end a statement that `following` stands behind. -/
inductive Closes : List Token → List Token → Prop where
  | newline {token : Token} {following : List Token} : token.kind = .newline → Begins following →
      Closes [token] following
  | semicolon {token : Token} {following : List Token} : token.kind = .semicolon → Begins following →
      Closes [token] following
  | nothing {stopper : Token} {after : List Token} : stopper.kind.isStop = true → Closes [] (stopper :: after)

namespace Closes

variable {breaks following : List Token}

theorem stops (h : Closes breaks following) : Stops (breaks ++ following) := by
  cases h with
  | newline hkind hbegins =>
    obtain ⟨first, rest, rfl, hbreak, hfirst, hsquare⟩ := hbegins
    exact .lineBreak hkind (ne_of_not_isBreak hbreak) hfirst hsquare
  | semicolon hkind hbegins => exact .mark (by rw [hkind]; rfl) (by simp [hkind])
  | nothing hstop =>
    obtain ⟨hbreak, hending, -⟩ := ne_of_isStop hstop
    exact .mark hending (ne_of_not_isBreak hbreak)

theorem skipStatementBreaks (h : Closes breaks following) (before : List Token) :
    (onto before (breaks ++ following)).skipStatementBreaks = onto (breaks.reverse ++ before) following := by
  cases h with
  | @newline token following hkind hbegins =>
    have hplace := hbegins.skipStatementBreaks (token :: before)
    obtain ⟨first, rest, rfl, -⟩ := hbegins
    rw [List.singleton_append, onto_newline hkind (List.cons_ne_nil _ _)]
    exact hplace
  | @semicolon token following hkind hbegins =>
    obtain ⟨first, rest, rfl, hbreak, -⟩ := hbegins
    rw [List.singleton_append, onto_cons (by simp [hkind]), onto_cons (ne_of_not_isBreak hbreak)]
    change skipFrom _ before token (first :: rest) = _
    rw [skipFrom, hkind]
    exact skipFrom_of_not hbreak
  | nothing hstop => exact (begins_stop hstop _).skipStatementBreaks before

theorem statementEnd (h : Closes breaks following) (before : List Token) (later : Context) :
    WalkM.statementEnd ⟨onto before (breaks ++ following), later⟩ =
      .ok () ⟨onto before (breaks ++ following), later⟩ := by
  have hends : ((onto before (breaks ++ following)).current.kind.isTerminator ||
      decide ((onto before (breaks ++ following)).current.kind = .closing .curly) ||
      (onto before (breaks ++ following)).followsBreak) = true := by
    cases h with
    | @newline token following hkind hbegins =>
      obtain ⟨first, rest, rfl, hbreak, -⟩ := hbegins
      have hfollows : (Cursor.mk (token :: before) first rest).followsBreak = true := by
        change token.kind.isBreak = true
        rw [hkind]
        rfl
      rw [List.singleton_append, onto_newline hkind (List.cons_ne_nil _ _), onto_cons (ne_of_not_isBreak hbreak),
        hfollows, Bool.or_true]
    | semicolon hkind hbegins =>
      rw [List.singleton_append, current_onto (by simp [hkind]), hkind]
      rfl
    | @nothing stopper after hstop =>
      rw [List.nil_append, current_onto (ne_of_not_isBreak (ne_of_isStop hstop).1)]
      rcases TokenKind.isStop_iff.1 hstop with hkind | hkind <;> rw [hkind] <;> rfl
  rw [WalkM.statementEnd, bind_get]
  dsimp only
  rw [if_pos hends]
  rfl

end Closes

/-! ## Runs of statements -/

/-- The run ends as the meaning does, in the same scopes; if it completes, it leaves the cursor at the given place. -/
def Ends (context : Context) (meaning : EStateM.Result ErrorKind ScopeStack Outcome) (place : Cursor)
    (run : EStateM.Result Failure Walk Outcome) : Prop :=
  Follows context meaning run fun outcome later =>
    ∃ cursor, run = .ok outcome ⟨cursor, context.withScopes later⟩ ∧
      ∀ item, outcome = .completed item → cursor = place

theorem Gives.ends {meaning : EStateM.Result ErrorKind ScopeStack Outcome} {place : Cursor}
    {run : EStateM.Result Failure Walk Outcome} (h : Gives context meaning place run) :
    Ends context meaning place run :=
  h.imp (fun _ _ => id) fun _ _ hrun => ⟨place, hrun, fun _ _ => rfl⟩

open WalkM (declaration declaredTypes evaluation nestedBlock returnStatement statement statementsFrom)

/-- The types of a declaration. -/
theorem declaredTypes_onto (type? : Option String) {types rest before : List Token} {sign : Token}
    (h : types.map Token.face = match type? with
      | some type => [.mark .colon, .name type]
      | none => []) (hsign : sign.kind = .assignment) (later : Context) :
    declaredTypes ⟨onto before (types ++ sign :: rest), later⟩ =
      .ok (TypeSet.ofName? type?) ⟨onto (types.reverse ++ before) (sign :: rest), later⟩ := by
  cases type? with
  | none =>
    obtain rfl := List.map_eq_nil_iff.1 h
    rw [List.nil_append, declaredTypes, WalkM.bind_reading (currentKind_onto (by simp [hsign])),
      if_neg (by simp [hsign])]
    rfl
  | some type =>
    obtain ⟨colon, _, rfl, hcolon, h⟩ := List.map_eq_cons_iff.1 h
    obtain ⟨name, rfl, hname⟩ := List.map_eq_singleton_iff.1 h
    have hcolon : colon.kind = .colon := Token.kind_of_face hcolon
    have hname' : name.kind = .name := Token.kind_of_face hname
    obtain rfl : name.text = type := Token.text_of_face hname rfl
    rw [List.cons_append, List.singleton_append, declaredTypes,
      WalkM.bind_reading (currentKind_onto (by simp [hcolon])), if_pos hcolon,
      WalkM.bind_reading (advance_run_onto (by simp [hcolon]) (by simp [hcolon]) (by simp)),
      WalkM.bind_reading (expect_onto hname' (by simp) (by simp) (by simp))]
    rfl

/-- A value goes into a new binding if its type is right and the name is free. -/
theorem gives_declare (isMutable : Bool) (name : String) (types : TypeSet) (item : Item) (line : Nat)
    (cursor : Cursor) (scopes : ScopeStack) :
    Gives context ((do Effect.declare isMutable name types item; return .completed .unit : Effect Outcome) scopes)
      cursor
      ((if types.accepts item.tag then do
          WalkM.ofContext (ContextM.declare { name, isMutable, types, item } line)
          return .completed .unit
        else WalkM.fail ⟨.typeMismatch types.name item.tag.name, line⟩ : WalkM Outcome)
        ⟨cursor, context.withScopes scopes⟩) := by
  rw [Effect.declare]
  cases types.accepts item.tag with
  | false => exact WalkM.fails_fail _ _ _ _
  | true =>
    rw [if_pos rfl, if_pos rfl]
    cases hdeclare : scopes.declare { name, isMutable, types, item } with
    | error kind =>
      have hdeclare' : (context.withScopes scopes).scopes.declare { name, isMutable, types, item } = .error kind :=
        hdeclare
      have hmeaning : (do set (← Effect.ofExcept ((← get).declare { name, isMutable, types, item })) : Effect Unit)
          scopes = .error kind scopes := by
        rw [bind_get, hdeclare]
        rfl
      rw [bind_of_error hmeaning]
      refine Fails.bind ⟨line, cursor, ?_⟩
      rw [WalkM.ofContext, ContextM.declare, hdeclare']
      rfl
    | ok later =>
      have hdeclare' : (context.withScopes scopes).scopes.declare { name, isMutable, types, item } = .ok later :=
        hdeclare
      have hmeaning : (do set (← Effect.ofExcept ((← get).declare { name, isMutable, types, item })) : Effect Unit)
          scopes = .ok () later := by
        rw [bind_get, hdeclare]
        rfl
      have hrun : WalkM.ofContext (ContextM.declare { name, isMutable, types, item } line)
          ⟨cursor, context.withScopes scopes⟩ = .ok () ⟨cursor, context.withScopes later⟩ := by
        rw [WalkM.ofContext, ContextM.declare, hdeclare']
        rfl
      rw [bind_of_ok hmeaning, bind_of_ok hrun]
      exact Gives.pure _

/-! ## Which statement it is -/

/-- What a statement is shows in its first token. -/
theorem statement_onto {nested : WalkM Outcome} {token : Token} {before rest : List Token}
    (hnewline : token.kind ≠ .newline) (later : Context) :
    statement executor nested ⟨onto before (token :: rest), later⟩ =
      (if token.isKeywordOf "let" || token.isKeywordOf "const" then declaration executor
      else if token.isKeywordOf "return" then returnStatement executor
      else if token.kind = .opening .curly then nestedBlock nested
      else do return .completed (← evaluation executor) : WalkM Outcome) ⟨onto before (token :: rest), later⟩ := by
  rw [statement, WalkM.bind_current]
  dsimp only
  rw [current_onto hnewline]

theorem statement_return {nested : WalkM Outcome} {token : Token} {before rest : List Token}
    (h : token.face = .word "return") (later : Context) :
    statement executor nested ⟨onto before (token :: rest), later⟩ =
      returnStatement executor ⟨onto before (token :: rest), later⟩ := by
  have hkind : token.kind = .keyword := Token.kind_of_face h
  rw [statement_onto (by simp [hkind]), Token.isKeywordOf_word h, Token.isKeywordOf_word h, Token.isKeywordOf_word h,
    if_neg (by decide), if_pos (by decide)]

/-- A face that no statement of a special form begins with. -/
def Face.IsPlain (face : Face) : Prop :=
  face.kind ≠ .opening .curly ∧ (face.kind = .keyword → face.text = "if")

theorem Term.isPlain_head : ∀ (term : Term), ∃ face rest, term.faces = face :: rest ∧ face.IsPlain
  | .literal ⟨kind, text, hliteral⟩ => by
    refine ⟨_, _, rfl, ?_, ?_⟩ <;> intro hkind <;> change kind = _ at hkind <;> rw [hkind] at hliteral <;>
      cases hliteral
  | .name _ => ⟨_, _, rfl, by simp [Face.name], by simp [Face.name]⟩
  | .call _ _ => ⟨_, _, rfl, by simp [Face.name], by simp [Face.name]⟩
  | .paren _ => ⟨_, _, rfl, by simp [Face.mark], by simp [Face.mark]⟩
  | .unary _ _ => ⟨_, _, rfl, by simp [Face.operator], by simp [Face.operator]⟩
  | .binary op left right => by
    obtain ⟨face, rest, hfaces, hplain⟩ := left.isPlain_head
    refine ⟨face, rest ++ .operator op :: right.faces, ?_, hplain⟩
    rw [faces, hfaces]
    rfl

theorem Phrase.isPlain_head : ∀ (phrase : Phrase), ∃ face rest, phrase.faces = face :: rest ∧ face.IsPlain
  | .term operand => operand.isPlain_head
  | .assignment _ _ => ⟨_, _, rfl, by simp [Face.name], by simp [Face.name]⟩
  | .ternary _ _ _ => ⟨_, _, rfl, by simp [Face.word], by simp [Face.word]⟩

/-- An expression is a statement of its own. -/
theorem statement_phrase {nested : WalkM Outcome} (phrase : Phrase) {tokens following : List Token}
    (hvalid : phrase.Valid context.registry) (h : tokens.map Token.face = phrase.faces) (before : List Token)
    (later : Context) :
    statement executor nested ⟨onto before (tokens ++ following), later⟩ =
      (do return .completed (← evaluation executor) : WalkM Outcome) ⟨onto before (tokens ++ following), later⟩ := by
  obtain ⟨token, rest, rfl, hstarts, -⟩ := started_phrase phrase hvalid h
  obtain ⟨face, faces, hfaces, hcurly, hword⟩ := phrase.isPlain_head
  rw [hfaces] at h
  obtain ⟨hface, -⟩ := List.cons_eq_cons.1 h
  have hkind : token.kind = face.kind := Token.kind_of_face hface
  have hkeyword : ∀ word, word ≠ "if" → token.isKeywordOf word = false := by
    intro word hne
    by_cases hkeyword : token.kind = .keyword
    · have hspelled : face.kind.isSpelled = true := by
        rw [← hkind, hkeyword]
        rfl
      have htext : token.text = "if" := (Token.text_of_face hface hspelled).trans (hword (hkind ▸ hkeyword))
      rw [Token.isKeywordOf, htext, decide_eq_false hne.symm, Bool.and_false]
    · exact WalkM.isKeywordOf_eq_false hkeyword word
  rw [List.cons_append, statement_onto (ne_of_startsOperand hstarts).1, hkeyword "let" (by simp),
    hkeyword "const" (by simp), hkeyword "return" (by simp), if_neg (by simp), if_neg (by simp),
    if_neg (hkind ▸ hcurly)]

/-! ## Statements that hold expressions -/

theorem gives_declaration (hsteady : executor.Steady) {nested : WalkM Outcome} {isMutable : Bool} {name : String}
    {type? : Option String} {value : Phrase} {tokens following : List Token} (hvalid : value.Valid context.registry)
    (h : tokens.map Token.face = (Statement.declaration isMutable name type? value).faces) (hstops : Stops following)
    (before : List Token) (scopes : ScopeStack) :
    Gives context ((Statement.declaration isMutable name type? value).run context.registry scopes)
      (onto (tokens.reverse ++ before) following)
      (statement executor nested ⟨onto before (tokens ++ following), context.withScopes scopes⟩) := by
  obtain ⟨keyword, _, rfl, hkeyword, h⟩ := List.map_eq_cons_iff.1 h
  obtain ⟨target, _, rfl, htarget, htail⟩ := List.map_eq_cons_iff.1 h
  obtain ⟨types, _, rfl, htypes, hinit⟩ := List.map_eq_append_iff.1 htail
  obtain ⟨sign, values, rfl, hsign, hvalue⟩ := List.map_eq_cons_iff.1 hinit
  have hkind : keyword.kind = .keyword := Token.kind_of_face hkeyword
  have htarget' : target.kind = .name := Token.kind_of_face htarget
  have hsign : sign.kind = .assignment := Token.kind_of_face hsign
  obtain rfl : target.text = name := Token.text_of_face htarget rfl
  have hmutable : keyword.isKeywordOf "let" = isMutable := by
    rw [Token.isKeywordOf_word hkeyword]
    cases isMutable <;> decide
  have hdeclares : (keyword.isKeywordOf "let" || keyword.isKeywordOf "const") = true := by
    rw [Token.isKeywordOf_word hkeyword, Token.isKeywordOf_word hkeyword]
    cases isMutable <;> decide
  have hshape : keyword :: target :: (types ++ sign :: values) ++ following =
      keyword :: target :: (types ++ sign :: (values ++ following)) := by simp
  have hplace : (keyword :: target :: (types ++ sign :: values)).reverse ++ before =
      values.reverse ++ sign :: (types.reverse ++ target :: keyword :: before) := by simp
  rw [hshape, hplace, statement_onto (by simp [hkind]), if_pos hdeclares, declaration,
    WalkM.bind_reading (advance_run_onto (by simp [hkind]) (by simp [hkind]) (by simp)),
    WalkM.bind_currentLine,
    WalkM.bind_reading (expect_onto htarget' (by simp) (by simp) (by simp)),
    bind_of_ok (declaredTypes_onto type? htypes hsign _),
    WalkM.bind_reading (expect_onto hsign (by simp) (by simp)
      (List.append_ne_nil_of_right_ne_nil values hstops.clear.ne_nil)), hmutable]
  refine (gives_evaluation hsteady value hvalid hvalue hstops _ scopes).bind fun item later => ?_
  exact gives_declare isMutable target.text _ item _ _ later

theorem gives_return (hsteady : executor.Steady) {nested : WalkM Outcome} {value : Phrase}
    {tokens following : List Token} (hvalid : value.Valid context.registry)
    (h : tokens.map Token.face = (Statement.exit (some value)).faces) (hstops : Stops following)
    (before : List Token) (scopes : ScopeStack) :
    Gives context ((Statement.exit (some value)).run context.registry scopes)
      (onto (tokens.reverse ++ before) following)
      (statement executor nested ⟨onto before (tokens ++ following), context.withScopes scopes⟩) := by
  obtain ⟨keyword, values, rfl, hkeyword, h⟩ := List.map_eq_cons_iff.1 h
  have hkind : keyword.kind = .keyword := Token.kind_of_face hkeyword
  have hvalue := gives_evaluation hsteady value hvalid h hstops (keyword :: before) scopes
  obtain ⟨token, rest, rfl, hstarts, -⟩ := started_phrase value hvalid h
  have hcontinues : ¬(token.kind.isTerminator || decide (token.kind = .closing .curly)) = true := by
    have hending := (not_ending_of_startsOperand hstarts true).2
    intro hends
    rw [Bool.or_eq_true, decide_eq_true_iff] at hends
    rcases hends with hends | hends <;> rw [hends] at hending <;> cases hending
  have hplace : (keyword :: token :: rest).reverse ++ before = (token :: rest).reverse ++ keyword :: before := by simp
  rw [hplace, List.cons_append, statement_return hkeyword, returnStatement,
    WalkM.bind_reading (advance_run_onto (by simp [hkind]) (by simp [hkind]) (by simp)),
    List.cons_append, WalkM.bind_reading (currentKind_onto (ne_of_startsOperand hstarts).1),
    if_neg hcontinues]
  exact hvalue.map

/-- A `return` that nothing stands behind gives unit. -/
theorem gives_bareReturn {nested : WalkM Outcome} {tokens rest : List Token} {token : Token}
    (h : tokens.map Token.face = (Statement.exit none).faces) (hnewline : token.kind ≠ .newline)
    (hends : (token.kind.isTerminator || decide (token.kind = .closing .curly)) = true) (before : List Token)
    (scopes : ScopeStack) :
    Gives context ((Statement.exit none).run context.registry scopes)
      (onto (tokens.reverse ++ before) (token :: rest))
      (statement executor nested ⟨onto before (tokens ++ token :: rest), context.withScopes scopes⟩) := by
  obtain ⟨keyword, rfl, hkeyword⟩ := List.map_eq_singleton_iff.1 h
  have hkind : keyword.kind = .keyword := Token.kind_of_face hkeyword
  rw [List.singleton_append, statement_return hkeyword, returnStatement,
    WalkM.bind_reading (advance_run_onto (by simp [hkind]) (by simp [hkind]) (by simp)),
    WalkM.bind_reading (currentKind_onto hnewline), if_pos hends]
  exact Gives.pure _

/-! ## Blocks -/

/-- Dropping a scope that was opened before leaves it. -/
theorem popScope_leave {scopes later : ScopeStack}
    (h : (context.withScopes scopes.push).Grows (context.withScopes later)) :
    ContextM.popScope (context.withScopes later) = .ok () (context.withScopes later.leave) := by
  have hgrows : Context.Grows { context.withScopes scopes with scopes := (context.withScopes scopes).scopes.push }
      (context.withScopes later) := h
  obtain ⟨outer, hpop, -⟩ := hgrows.pop
  have hleave : later.leave = outer := by
    rw [ScopeStack.leave, show later.pop = .ok outer from hpop]
  rw [ContextM.popScope, hpop, hleave]
  rfl

namespace WalkM

variable {body : WalkM Outcome} {cursor place : Cursor} {scopes later : ScopeStack}

theorem inScope_of_ok (hgrows : Keeping Context.Grows body) {outcome : Outcome}
    (h : body ⟨cursor, context.withScopes scopes.push⟩ = .ok outcome ⟨place, context.withScopes later⟩) :
    inScope body ⟨cursor, context.withScopes scopes⟩ = .ok outcome ⟨place, context.withScopes later.leave⟩ := by
  have hpop : ofContext ContextM.popScope ⟨place, context.withScopes later⟩ =
      .ok () ⟨place, context.withScopes later.leave⟩ := by
    rw [ofContext, popScope_leave (hgrows.ok h).context]
  unfold inScope
  split
  · rename_i heq
    cases heq.symm.trans h
    exact bind_of_ok hpop
  · rename_i heq
    cases heq.symm.trans h

theorem inScope_of_error (hgrows : Keeping Context.Grows body) {failure : Failure}
    (h : body ⟨cursor, context.withScopes scopes.push⟩ = .error failure ⟨place, context.withScopes later⟩) :
    inScope body ⟨cursor, context.withScopes scopes⟩ = .error failure ⟨place, context.withScopes later.leave⟩ := by
  have hpop : ofContext ContextM.popScope ⟨place, context.withScopes later⟩ =
      .ok () ⟨place, context.withScopes later.leave⟩ := by
    rw [ofContext, popScope_leave (hgrows.error h).context]
  unfold inScope
  split
  · rename_i heq
    cases heq.symm.trans h
  · rename_i heq
    cases heq.symm.trans h
    exact bind_of_ok hpop

end WalkM

/-- Statements in a scope of their own. -/
theorem ends_inScope {body : WalkM Outcome} (hgrows : WalkM.Keeping Context.Grows body) {M : Effect Outcome}
    {cursor place : Cursor} {scopes : ScopeStack}
    (h : Ends context (M scopes.push) place (body ⟨cursor, context.withScopes scopes.push⟩)) :
    Ends context (Effect.inScope M scopes) place (WalkM.inScope body ⟨cursor, context.withScopes scopes⟩) := by
  rw [Effect.inScope]
  cases hM : M scopes.push with
  | ok outcome later =>
    rw [hM] at h
    obtain ⟨after, hrun, hplace⟩ := h
    exact ⟨after, WalkM.inScope_of_ok hgrows hrun, hplace⟩
  | error kind later =>
    rw [hM] at h
    obtain ⟨line, after, hrun⟩ := h
    exact ⟨line, after, WalkM.inScope_of_error hgrows hrun⟩

theorem ends_nestedBlock (hsteady : executor.Steady) {M : Effect Outcome} {opening closing : Token}
    {tokens following before : List Token} (hopening : opening.kind = .opening .curly)
    (hclosing : closing.kind = .closing .curly) (hne : following ≠ []) {steps : Nat} {scopes : ScopeStack}
    (h : Ends context (M scopes.push) (onto (tokens.reverse ++ opening :: before) (closing :: following))
      (statementsFrom executor steps (.closing .curly) .unit
        ⟨onto (opening :: before) (tokens ++ closing :: following), context.withScopes scopes.push⟩)) :
    Ends context (Effect.inScope M scopes) (onto (closing :: (tokens.reverse ++ opening :: before)) following)
      (statement executor (statementsFrom executor steps (.closing .curly) .unit)
        ⟨onto before (opening :: (tokens ++ closing :: following)), context.withScopes scopes⟩) := by
  have hkeyword : opening.kind ≠ .keyword := by simp [hopening]
  rw [statement_onto (by simp [hopening]), WalkM.isKeywordOf_eq_false hkeyword, WalkM.isKeywordOf_eq_false hkeyword,
    WalkM.isKeywordOf_eq_false hkeyword, if_neg (by simp), if_neg (by simp), if_pos hopening, nestedBlock,
    WalkM.bind_reading (advance_run_onto (by simp [hopening]) (by simp [hopening]) (by simp))]
  refine Follows.imp (ends_inScope (WalkM.growing_statementsFrom hsteady _ _) h) (fun _ _ => Fails.bind) ?_
  rintro outcome later ⟨cursor, hrun, hplace⟩
  rw [bind_of_ok hrun]
  cases outcome with
  | returned item => exact ⟨cursor, rfl, fun _ heq => by cases heq⟩
  | completed item =>
    obtain rfl := hplace item rfl
    refine ⟨_, ?_, fun _ _ => rfl⟩
    exact WalkM.bind_reading (expect_onto hclosing (by simp) (by simp) hne)

end GradualScript
