import GradualScript.Proofs.OperatorTree.Postfix
import GradualScript.Proofs.Program.Edges
import GradualScript.Proofs.Program.Reading
import GradualScript.Proofs.Walk.Balance

/-!
# Expressions that hold expressions

* `Values` : tokens that are read as an expression with the value of a meaning;
* `Argues` : tokens that are read as arguments;
* `reads_call`, `reads_assignment`, `reads_ternary` : the forms that evaluate expressions inside them.
-/

set_option autoImplicit false

namespace GradualScript

open Cursor CursorM
open WalkM (collect collect_ends inside)

variable {executor : Executor} {context : Context}

/-! ## Values of expressions -/

/-- The tokens are read as an expression with the value of the meaning, which ends before `following`. -/
def Values (executor : Executor) (context : Context) (meaning : Effect Item) (tokens following : List Token) : Prop :=
  ∀ (steps : Nat) (before : List Token) (scopes : ScopeStack), (tokens ++ following).length ≤ steps →
    Gives context (meaning scopes) (onto (tokens.reverse ++ before) following)
      (WalkM.valueOf (inside executor steps) ⟨onto before (tokens ++ following), context.withScopes scopes⟩)

/-- The value of elements that a grouped tree is written as. -/
theorem calculate_of_grouped {t : OperatorTree} (h : t.Grouped) (line : Nat) :
    Expression.calculate ⟨t.written, line⟩ = t.eval.mapError (·.at line) := by
  rw [Expression.calculate, OperatorTree.value_of_read? (OperatorTree.read?_written h)]

/-- Tokens that are read as a tree have the value of the tree, if nothing else is read. -/
theorem Reads.values {M : Effect OperatorTree} {tokens following : List Token}
    (h : Reads executor context M tokens following)
    (hgrouped : ∀ scopes tree later, M scopes = .ok tree later → tree.Grouped) (hended : Ended tokens)
    (hstarted : Started tokens) (hstops : Stops following) :
    Values executor context (Effect.valueOf M) tokens following := by
  intro steps before scopes hsteps
  have hreads := h steps before.length [] before [] scopes (.inl rfl) hsteps
  rw [WalkM.collect_nil] at hreads
  have hinside : ∃ line, inside executor steps ⟨onto before (tokens ++ following), context.withScopes scopes⟩ =
      (do return ⟨← WalkM.elements executor steps before.length [], line⟩ : WalkM Expression)
        ⟨onto before (tokens ++ following), context.withScopes scopes⟩ := by
    obtain ⟨token, rest, rfl, hstarts, -⟩ := hstarted
    have hnewline := (ne_of_startsOperand hstarts).1
    refine ⟨(onto before (token :: (rest ++ following))).line, ?_⟩
    rw [List.cons_append]
    change WalkM.expressionBy _ _ = _
    rw [WalkM.expressionBy, WalkM.bind_reading (skipLineBreaks_run_onto hnewline), bind_get]
    have hposition : (onto before (token :: (rest ++ following))).position = before.length := by
      rw [onto_cons hnewline]
      rfl
    dsimp only
    rw [hposition]
  obtain ⟨line, hinside⟩ := hinside
  rw [WalkM.valueOf, Effect.valueOf]
  cases hM : M scopes with
  | error kind later =>
    rw [hM] at hreads
    rw [bind_of_error hM]
    refine Fails.bind ?_
    rw [hinside]
    exact Fails.bind hreads
  | ok tree later =>
    rw [hM] at hreads
    obtain ⟨left, hleft, hrun⟩ := hreads
    obtain ⟨steps', rfl⟩ : ∃ steps', left = steps' + 1 := by
      have hpos := hstops.clear.length_pos
      exact ⟨left - 1, by omega⟩
    rw [List.nil_append, collect_ends (hended.boundary hstops before)] at hrun
    rw [bind_of_ok hM, bind_of_ok (hinside.trans (bind_of_ok hrun)), WalkM.calculate,
      calculate_of_grouped (hgrouped _ _ _ hM)]
    cases tree.eval with
    | ok item => rfl
    | error kind => exact WalkM.fails_fail _ _ _ _

/-! ## Calls -/

open WalkM (argumentList argumentList_succ arguments functionCall callSite hostCall)

/-- The tokens are read as arguments with the values of the meaning, up to a closing parenthesis. -/
def Argues (executor : Executor) (context : Context) (meaning : Effect (List Item)) (tokens : List Token) : Prop :=
  ∀ (steps rounds : Nat) (before following : List Token) (closing : Token) (scopes : ScopeStack),
    closing.kind = .closing .round → following ≠ [] → (tokens ++ closing :: following).length ≤ steps →
    tokens.length ≤ rounds →
    Gives context (meaning scopes) (onto (closing :: (tokens.reverse ++ before)) following)
      (argumentList (inside executor steps) rounds
        ⟨onto before (tokens ++ closing :: following), context.withScopes scopes⟩)

theorem argues_last {M : Effect Item} {tokens : List Token} (hpos : 0 < tokens.length)
    (h : ∀ following, Stops following → Values executor context M tokens following) :
    Argues executor context (do return [← M]) tokens := by
  intro steps rounds before following closing scopes hclosing hne hsteps hrounds
  obtain ⟨rounds, rfl⟩ : ∃ left, rounds = left + 1 := ⟨rounds - 1, by omega⟩
  have hnewline : closing.kind ≠ .newline := by simp [hclosing]
  have hvalue := h (closing :: following) (.mark (by rw [hclosing]; rfl) hnewline) steps before scopes hsteps
  rw [argumentList_succ]
  refine hvalue.bind fun item later => ?_
  rw [WalkM.bind_reading (currentKind_onto hnewline), hclosing, if_neg (by simp), if_pos rfl,
    WalkM.bind_reading (advance_run_onto hnewline (by simp [hclosing]) hne)]
  exact Gives.pure _

theorem argues_cons {M : Effect Item} {N : Effect (List Item)} {tokens others : List Token} {comma : Token}
    (hcomma : comma.kind = .comma)
    (h : ∀ following, Stops following → Values executor context M tokens following)
    (h' : Argues executor context N others) :
    Argues executor context (do let item ← M; return item :: (← N)) (tokens ++ comma :: others) := by
  intro steps rounds before following closing scopes hclosing hne hsteps hrounds
  obtain ⟨rounds, rfl⟩ : ∃ left, rounds = left + 1 := ⟨rounds - 1, by simp at hrounds; omega⟩
  have hnewline : comma.kind ≠ .newline := by simp [hcomma]
  have hshape : tokens ++ comma :: others ++ closing :: following =
      tokens ++ comma :: (others ++ closing :: following) := by simp
  have hplace : closing :: ((tokens ++ comma :: others).reverse ++ before) =
      closing :: (others.reverse ++ comma :: (tokens.reverse ++ before)) := by simp
  rw [hshape] at hsteps ⊢
  rw [hplace]
  have hvalue := h (comma :: (others ++ closing :: following)) (.mark (by rw [hcomma]; rfl) hnewline) steps before
    scopes hsteps
  rw [argumentList_succ]
  refine hvalue.bind fun item later => ?_
  rw [WalkM.bind_reading (currentKind_onto hnewline), hcomma, if_pos rfl,
    WalkM.bind_reading (advance_run_onto hnewline (by simp [hcomma]) (by simp))]
  exact (h' steps rounds _ following closing later hclosing hne (by simp at hsteps ⊢; omega)
    (by simp at hrounds; omega)).map

/-- The arguments of a call, none or some. -/
theorem gives_arguments {M : Effect (List Item)} {tokens following before : List Token} {opening closing : Token}
    (hopening : opening.kind = .opening .round) (hclosing : closing.kind = .closing .round) (hne : following ≠ [])
    (h : tokens = [] ∧ M = pure [] ∨ Started tokens ∧ Argues executor context M tokens) {steps : Nat}
    (hsteps : (tokens ++ closing :: following).length ≤ steps) (scopes : ScopeStack) :
    Gives context (M scopes) (onto (closing :: (tokens.reverse ++ opening :: before)) following)
      (arguments (inside executor steps) steps
        ⟨onto before (opening :: (tokens ++ closing :: following)), context.withScopes scopes⟩) := by
  have hnewline : closing.kind ≠ .newline := by simp [hclosing]
  rw [arguments, WalkM.bind_reading (expect_onto hopening (by simp) (by simp) (by simp))]
  rcases h with ⟨rfl, rfl⟩ | ⟨hstarted, hargues⟩
  · rw [List.nil_append, WalkM.bind_reading (currentKind_onto hnewline), if_pos hclosing,
      WalkM.bind_reading (advance_run_onto hnewline (by simp [hclosing]) hne)]
    exact Gives.pure _
  · have hargues := hargues steps steps (opening :: before) following closing scopes hclosing hne hsteps
      (by simp at hsteps; omega)
    obtain ⟨token, rest, rfl, hstarts, -⟩ := hstarted
    have hkind : token.kind ≠ .closing .round := by
      intro hkind
      have hending := (not_ending_of_startsOperand hstarts true).2
      rw [hkind] at hending
      cases hending
    rw [List.cons_append, WalkM.bind_reading (currentKind_onto (ne_of_startsOperand hstarts).1),
      if_neg hkind]
    exact hargues

theorem follows_hostCall (function : HostFunction) (items : List Item) (line : Nat) (cursor : Cursor)
    (scopes : ScopeStack) :
    Follows context (Effect.ofExcept (function items) scopes)
      (hostCall function items line ⟨cursor, context.withScopes scopes⟩)
      fun item later => ∃ result : CallResult, result.item = item ∧
        hostCall function items line ⟨cursor, context.withScopes scopes⟩ =
          .ok result ⟨cursor, context.withScopes later⟩ := by
  rw [hostCall]
  cases function items with
  | error kind => exact WalkM.fails_fail _ _ _ _
  | ok item =>
    cases item with
    | unit => exact ⟨.void, rfl, rfl⟩
    | _ => exact ⟨.value _, rfl, rfl⟩

/-- A call of a function of the host; that unit is no result does not show in the value. -/
theorem follows_functionCall {M : Effect (List Item)} {name opening closing : Token}
    {tokens following before : List Token} (hname : name.kind = .name) (hopening : opening.kind = .opening .round)
    (hclosing : closing.kind = .closing .round) (hne : following ≠ [])
    (hregistered : context.registry.hasFunction name.text = true)
    (h : tokens = [] ∧ M = pure [] ∨ Started tokens ∧ Argues executor context M tokens) {steps : Nat}
    (hsteps : (tokens ++ closing :: following).length ≤ steps) (scopes : ScopeStack) :
    Follows context ((M >>= Effect.call context.registry name.text) scopes)
      (functionCall executor (inside executor steps) steps
        ⟨onto before (name :: opening :: (tokens ++ closing :: following)), context.withScopes scopes⟩)
      fun item later => ∃ result : CallResult, result.item = item ∧
        functionCall executor (inside executor steps) steps
            ⟨onto before (name :: opening :: (tokens ++ closing :: following)), context.withScopes scopes⟩ =
          .ok result ⟨onto (closing :: (tokens.reverse ++ opening :: name :: before)) following,
            context.withScopes later⟩ := by
  obtain ⟨function, hfunction⟩ := Option.isSome_iff_exists.1 hregistered
  have hnewline : name.kind ≠ .newline := by simp [hname]
  rw [functionCall, WalkM.bind_currentLine,
    WalkM.bind_reading (advance_run_onto hnewline (by simp [hname]) (by simp))]
  refine Follows.bind ((gives_arguments hopening hclosing hne h hsteps scopes).imp (fun _ _ => Fails.bind) ?_)
  intro items later hrun
  have hfunction' : (context.withScopes later).registry.function? name.text = some function := hfunction
  simp only [bind_of_ok hrun, bind_get, Effect.call, hfunction, hfunction']
  exact follows_hostCall function items _ _ later

theorem gives_callSite {M : Effect (List Item)} {name opening closing : Token}
    {tokens following before : List Token} (hname : name.kind = .name) (hopening : opening.kind = .opening .round)
    (hclosing : closing.kind = .closing .round) (hne : following ≠ [])
    (hregistered : context.registry.hasFunction name.text = true)
    (h : tokens = [] ∧ M = pure [] ∨ Started tokens ∧ Argues executor context M tokens) {steps : Nat}
    (hsteps : (tokens ++ closing :: following).length ≤ steps) (scopes : ScopeStack) :
    Gives context ((M >>= Effect.call context.registry name.text) scopes)
      (onto (closing :: (tokens.reverse ++ opening :: name :: before)) following)
      (callSite executor (inside executor steps) steps
        ⟨onto before (name :: opening :: (tokens ++ closing :: following)), context.withScopes scopes⟩) := by
  have hkind : (if name.kind = .name then (context.withScopes scopes).nameKind name.text
      else NameKind.undeclared) = .function := by
    have hregistered' : (context.withScopes scopes).registry.hasFunction name.text = true := hregistered
    rw [if_pos hname, Context.nameKind, if_pos hregistered']
  have hsite : callSite executor (inside executor steps) steps
      ⟨onto before (name :: opening :: (tokens ++ closing :: following)), context.withScopes scopes⟩ =
      (do return (← functionCall executor (inside executor steps) steps).item : WalkM Item)
        ⟨onto before (name :: opening :: (tokens ++ closing :: following)), context.withScopes scopes⟩ := by
    rw [callSite, WalkM.bind_current, bind_get]
    dsimp only
    rw [current_onto (by simp [hname]), hkind]
  rw [hsite]
  refine (follows_functionCall hname hopening hclosing hne hregistered h hsteps scopes).imp
    (fun _ _ => Fails.bind) ?_
  rintro item later ⟨result, rfl, hrun⟩
  exact bind_of_ok hrun

theorem reads_call {M : Effect (List Item)} {name opening closing : Token} {tokens following : List Token}
    (hname : name.kind = .name) (hopening : opening.kind = .opening .round)
    (hclosing : closing.kind = .closing .round) (hne : following ≠ [])
    (hregistered : context.registry.hasFunction name.text = true)
    (h : tokens = [] ∧ M = pure [] ∨ Started tokens ∧ Argues executor context M tokens) :
    Reads executor context (do return .value (← M >>= Effect.call context.registry name.text))
      (name :: opening :: (tokens ++ [closing])) following := by
  refine reads_value (by rw [hname]; rfl) (by rw [hname]; rfl) fun steps before scopes hsteps => ?_
  have hnewline : name.kind ≠ .newline := by simp [hname]
  have hshape : opening :: (tokens ++ [closing]) ++ following = opening :: (tokens ++ closing :: following) := by simp
  have hplace : (name :: opening :: (tokens ++ [closing])).reverse ++ before =
      closing :: (tokens.reverse ++ opening :: name :: before) := by simp
  rw [hshape] at hsteps ⊢
  rw [hplace, onto_cons hnewline, WalkM.element_call hname hopening, ← onto_cons hnewline]
  exact (gives_callSite hname hopening hclosing hne hregistered h (by simp at hsteps ⊢; omega) scopes).map

/-! ## Assignments and ternaries -/

open WalkM (assignment nameValue ternary keeping_valueOf keeping_expressionBy keeping_elements)

/-- What stands behind the sign is evaluated if the target is a variable. -/
theorem assignment_onto (inner : WalkM Expression) {target sign : Token} (before : List Token) {rest : List Token}
    (hname : target.kind = .name) (hsign : sign.kind = .assignment) (hne : rest ≠ []) (later : Context) :
    ∃ line, assignment inner ⟨onto before (target :: sign :: rest), later⟩ =
      (match later.scopes.lookup? target.text with
      | none => WalkM.fail ⟨.undefinedName target.text, line⟩
      | some binding =>
        if binding.isMutable then do
          let item ← WalkM.valueOf inner
          WalkM.ofContext (ContextM.assign target.text item)
          return item
        else WalkM.fail ⟨.constantAssignment target.text, line⟩ : WalkM Item)
        ⟨onto (sign :: target :: before) rest, later⟩ := by
  have hnewline : target.kind ≠ .newline := by simp [hname]
  refine ⟨(onto before (target :: sign :: rest)).line, ?_⟩
  rw [assignment, WalkM.bind_currentLine,
    WalkM.bind_reading (advance_run_onto hnewline (by simp [hname]) (by simp)),
    WalkM.bind_reading (expect_onto hsign (by simp) (by simp) hne)]
  rfl

/-- Storing a value cannot fail: the name still has a binding when the value is known. -/
theorem assign_of_persists {name : String} {binding : Binding} {scopes later : ScopeStack} (item : Item)
    (hfind : scopes.lookup? name = some binding) (h : scopes.Persists later) (cursor : Cursor) :
    WalkM.ofContext (ContextM.assign name item) ⟨cursor, context.withScopes later⟩ =
      .ok () ⟨cursor, context.withScopes (later.store name item)⟩ := by
  rcases h.lookup? name with ⟨hnone, -⟩ | ⟨found, found', hfound, hfound', -⟩
  · rw [hnone] at hfind
    cases hfind
  · obtain ⟨changed, hassign⟩ := ScopeStack.exists_assign hfound' item
    have hassign' : (context.withScopes later).scopes.assign name item = .ok changed := hassign
    rw [WalkM.ofContext, ContextM.assign, hassign', ScopeStack.store, hassign]
    rfl

theorem gives_assignment (hsteady : executor.Steady) {M : Effect Item} {target sign : Token}
    {tokens following before : List Token} (hname : target.kind = .name) (hsign : sign.kind = .assignment)
    (hne : following ≠ []) (h : Values executor context M tokens following) {steps : Nat}
    (hsteps : (tokens ++ following).length ≤ steps) (scopes : ScopeStack) :
    Gives context (Effect.assign target.text M scopes) (onto (tokens.reverse ++ sign :: target :: before) following)
      (nameValue (inside executor steps)
        ⟨onto before (target :: sign :: (tokens ++ following)), context.withScopes scopes⟩) := by
  have hnewline : target.kind ≠ .newline := by simp [hname]
  have hpeek : (Cursor.mk before target (sign :: (tokens ++ following))).peek.kind = .assignment := by
    rw [peek_cons (by simp [hsign]), hsign]
  obtain ⟨line, hassignment⟩ := assignment_onto (inside executor steps) before hname hsign
    (List.append_ne_nil_of_right_ne_nil tokens hne) (context.withScopes scopes)
  rw [onto_cons hnewline] at hassignment ⊢
  rw [nameValue, bind_get, Effect.assign, bind_get]
  dsimp only
  cases hfind : scopes.lookup? target.text with
  | none =>
    have hfind' : (context.withScopes scopes).scopes.lookup? target.text = none := hfind
    rw [if_pos hpeek]
    split
    · exact WalkM.fails_failHere _ _ _
    · rw [hassignment, hfind']
      exact WalkM.fails_fail _ _ _ _
  | some binding =>
    have hfind' : (context.withScopes scopes).scopes.lookup? target.text = some binding := hfind
    have hdeclared : (context.withScopes scopes).nameKind target.text ≠ .undeclared := by
      rw [Ne, nameKind_eq_undeclared_iff, hfind']
      simp
    rw [if_neg hdeclared, if_pos hpeek, hassignment, hfind']
    dsimp only
    cases hmutable : binding.isMutable with
    | false => exact WalkM.fails_fail _ _ _ _
    | true =>
      have hvalue := h steps (sign :: target :: before) scopes hsteps
      have hkeeps : WalkM.Keeping Context.Persists (WalkM.valueOf (inside executor steps)) :=
        keeping_valueOf (keeping_expressionBy fun first => keeping_elements hsteady.respects first [])
      rw [if_pos rfl, if_pos rfl]
      refine Follows.bind (hvalue.imp (fun _ _ => Fails.bind) fun item later hrun => ?_)
      -- the target was looked up before its value was read, which may have stored values but took no name away
      have hpersists : scopes.Persists later := (hkeeps.ok hrun).context.scopes
      rw [bind_of_ok hrun, bind_of_ok (assign_of_persists item hfind hpersists _)]
      rfl

theorem reads_assignment (hsteady : executor.Steady) {M : Effect Item} {target sign : Token}
    {tokens following : List Token} (hname : target.kind = .name) (hsign : sign.kind = .assignment)
    (hne : following ≠ []) (h : Values executor context M tokens following) :
    Reads executor context (do return .value (← Effect.assign target.text M)) (target :: sign :: tokens)
      following := by
  refine reads_value (by rw [hname]; rfl) (by rw [hname]; rfl) fun steps before scopes hsteps => ?_
  have hnewline : target.kind ≠ .newline := by simp [hname]
  have hplace : (target :: sign :: tokens).reverse ++ before = tokens.reverse ++ sign :: target :: before := by simp
  have hpeek : (Cursor.mk before target (sign :: (tokens ++ following))).peek.kind = .assignment := by
    rw [peek_cons (by simp [hsign]), hsign]
  have hraw : (Cursor.mk before target (sign :: (tokens ++ following))).peekRaw.kind ≠ .opening .round := by
    change sign.kind ≠ _
    simp [hsign]
  rw [List.cons_append, hplace, onto_cons hnewline,
    WalkM.element_name hname hraw (by simp [hpeek]) (by simp [hpeek]), ← onto_cons hnewline]
  exact (gives_assignment hsteady hname hsign hne h (by simp at hsteps ⊢; omega) scopes).map

/-- The tokens are skipped over as one expression. -/
def Skipped (tokens following : List Token) : Prop :=
  ∀ before, skipExpression (onto before (tokens ++ following)) = .ok () (onto (tokens.reverse ++ before) following)

/-- The branch that is chosen, on its way to the end of the other one. -/
theorem gives_ternary {C P N : Effect Item} {keyword opening closing alternative : Token}
    {conditions positives negatives following before : List Token} (hkeyword : keyword.isKeywordOf "if" = true)
    (hopening : opening.kind = .opening .round) (hclosing : closing.kind = .closing .round)
    (helse : alternative.isKeywordOf "else" = true) (hne : negatives ++ following ≠ [])
    (hcondition : Values executor context C conditions
      (closing :: (positives ++ alternative :: (negatives ++ following))))
    (hpositive : Values executor context P positives (alternative :: (negatives ++ following)))
    (hpositive' : Skipped positives (alternative :: (negatives ++ following)))
    (hnegative : Values executor context N negatives following) (hnegative' : Skipped negatives following)
    {steps : Nat} (scopes : ScopeStack)
    (hsteps : (conditions ++ closing :: (positives ++ alternative :: (negatives ++ following))).length ≤ steps) :
    Gives context ((C >>= Effect.choose P N) scopes)
      (onto (negatives.reverse ++ alternative :: (positives.reverse ++
        closing :: (conditions.reverse ++ opening :: keyword :: before))) following)
      (ternary (inside executor steps) ⟨onto before (keyword :: opening ::
        (conditions ++ closing :: (positives ++ alternative :: (negatives ++ following)))),
          context.withScopes scopes⟩) := by
  rw [ternary, WalkM.bind_currentLine,
    WalkM.bind_reading (expectKeyword_onto hkeyword (by simp)),
    WalkM.bind_reading (expect_onto hopening (by simp) (by simp) (by simp))]
  refine (hcondition steps _ scopes hsteps).bind fun item later => ?_
  rw [WalkM.bind_reading (expect_onto hclosing (by simp) (by simp) (by simp))]
  cases item with
  | bool chosen =>
    cases chosen with
    | true =>
      refine Follows.imp (hpositive steps _ later (by simp at hsteps ⊢; omega)) (fun _ _ => Fails.bind) ?_
      intro item last hrun
      dsimp only
      rw [bind_of_ok hrun, WalkM.bind_reading (expectKeyword_onto helse hne)]
      exact WalkM.bind_reading (hnegative' _)
    | false =>
      dsimp only
      rw [WalkM.bind_reading (hpositive' _),
        WalkM.bind_reading (expectKeyword_onto helse hne)]
      exact hnegative steps _ later (by simp at hsteps ⊢; omega)
  | _ => exact WalkM.fails_fail _ _ _ _

theorem reads_ternary {C P N : Effect Item} {keyword opening closing alternative : Token}
    {conditions positives negatives following : List Token} (hkeyword : keyword.isKeywordOf "if" = true)
    (hopening : opening.kind = .opening .round) (hclosing : closing.kind = .closing .round)
    (helse : alternative.isKeywordOf "else" = true) (hne : negatives ++ following ≠ [])
    (hcondition : Values executor context C conditions
      (closing :: (positives ++ alternative :: (negatives ++ following))))
    (hpositive : Values executor context P positives (alternative :: (negatives ++ following)))
    (hpositive' : Skipped positives (alternative :: (negatives ++ following)))
    (hnegative : Values executor context N negatives following) (hnegative' : Skipped negatives following) :
    Reads executor context (do return .value (← C >>= Effect.choose P N))
      (keyword :: opening :: (conditions ++ closing :: (positives ++ alternative :: negatives))) following := by
  have hkind := kind_of_isKeywordOf hkeyword
  refine reads_value (by rw [hkind]; rfl) (by rw [hkind]; rfl) fun steps before scopes hsteps => ?_
  have hnewline : keyword.kind ≠ .newline := by simp [hkind]
  have hshape : opening :: (conditions ++ closing :: (positives ++ alternative :: negatives)) ++ following =
      opening :: (conditions ++ closing :: (positives ++ alternative :: (negatives ++ following))) := by simp
  have hplace : (keyword :: opening :: (conditions ++ closing :: (positives ++ alternative :: negatives))).reverse ++
      before = negatives.reverse ++ alternative :: (positives.reverse ++
        closing :: (conditions.reverse ++ opening :: keyword :: before)) := by simp
  rw [hshape] at hsteps ⊢
  rw [hplace, onto_cons hnewline, WalkM.element_if hkeyword, ← onto_cons hnewline]
  exact (gives_ternary hkeyword hopening hclosing helse hne hcondition hpositive hpositive' hnegative hnegative'
    scopes (by simp at hsteps ⊢; omega)).map

end GradualScript
