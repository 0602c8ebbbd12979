import GradualScript.Proofs.Tandem.Expression

/-!
# Calls and statements that are run twice

* `Tandem` : relations between stacks of scopes over which all that programs do with scopes goes alike;
* `Context.Abreast` : contexts with such scopes, and with a bound on the calls that may still be nested;
* `Executor.Paired` : two executors that run bodies alike; `couples_of_paired` says that expressions go alike then;
* `goes_declaration`, `goes_nestedBlock`, … : one lemma for each form of statement;
* `coupled_statementsFrom` : statements, with two numbers of steps.
-/

set_option autoImplicit false

namespace GradualScript

/-- Declarations do the same in stacks that are related. -/
def Declares (R : ScopeStack → ScopeStack → Prop) (p : List Token → Prop) : Prop :=
  ∀ {stack other} {binding : Binding}, R stack other → binding.item.BodiesIn p →
    (∃ kind, stack.declare binding = .error kind ∧ other.declare binding = .error kind) ∨
      ∃ changed changed', stack.declare binding = .ok changed ∧ other.declare binding = .ok changed' ∧
        R changed changed'

/-- The stacks that `S k` relates have `k` innermost scopes which both runs have opened. Look-ups and assignments do
the same in both stacks, and so do declarations in a scope that both have opened. -/
structure Tandem (S : Nat → ScopeStack → ScopeStack → Prop) (p : List Token → Prop) : Prop where
  captures : ∀ tokens, Token.Terminated tokens → p tokens
  lookup? : ∀ {k stack other}, S k stack other → ∀ name, other.lookup? name = stack.lookup? name
  bodiesIn : ∀ {k stack other name binding}, S k stack other → stack.lookup? name = some binding →
    binding.item.BodiesIn p
  assign : ∀ {k stack other name binding item}, S k stack other → stack.lookup? name = some binding →
    item.BodiesIn p → ∃ changed changed', stack.assign name item = .ok changed ∧ other.assign name item = .ok changed' ∧
      S k changed changed'
  push : ∀ {k stack other}, S k stack other → S (k + 1) stack.push other.push
  pop : ∀ {k stack other}, S (k + 1) stack other → ∃ outer outer', stack.pop = .ok outer ∧ other.pop = .ok outer' ∧
    S k outer outer'
  declare : ∀ k, Declares (S (k + 1)) p

/-- Contexts that differ at most in their scopes, and in which at most `r` calls may be nested. -/
structure Context.Abreast (S : Nat → ScopeStack → ScopeStack → Prop) (p : List Token → Prop) (k r : Nat)
    (context other : Context) : Prop where
  registry : other.registry = context.registry
  config : other.config = context.config
  callDepth : other.callDepth = context.callDepth
  room : context.config.maxCallDepth ≤ context.callDepth + r
  hosts : context.registry.BodiesIn p
  scopes : S k context.scopes other.scopes

open Context (Abreast)

variable {S : Nat → ScopeStack → ScopeStack → Prop} {p : List Token → Prop} {k r n : Nat} {context other : Context}
  {α : Type} {V : α → Prop}

theorem Context.Abreast.withScopes (h : Abreast S p k r context other) {j : Nat} {scopes scopes' : ScopeStack}
    (hscopes : S j scopes scopes') : Abreast S p j r { context with scopes } { other with scopes := scopes' } :=
  ⟨h.registry, h.config, h.callDepth, h.room, h.hosts, hscopes⟩

namespace ContextM

/-- Two runs end alike, and the contexts are abreast. -/
abbrev Goes (S : Nat → ScopeStack → ScopeStack → Prop) (p : List Token → Prop) (k r : Nat) (V : α → Prop)
    (result other : EStateM.Result Failure Context α) : Prop :=
  Alike (Failure.Possible p) (Abreast S p k r) (Abreast S p k r) V result other

theorem goes_declare (hdeclare : Declares (S k) p) {binding : Binding} (line : Nat)
    (hbinding : binding.item.BodiesIn p) (h : Abreast S p k r context other) :
    Goes S p k r (fun _ => True) (declare binding line context) (declare binding line other) := by
  rw [declare, declare]
  rcases hdeclare h.scopes hbinding with ⟨kind, hfails, hfails'⟩ | ⟨changed, changed', hok, hok', hscopes⟩
  · rw [hfails, hfails']
    exact .error trivial h
  · rw [hok, hok']
    exact .ok trivial (h.withScopes hscopes)

theorem goes_declareAll (hdeclare : Declares (S k) p) {bindings : List Binding} (line : Nat)
    (hbindings : ∀ binding ∈ bindings, binding.item.BodiesIn p) (h : Abreast S p k r context other) :
    Goes S p k r (fun _ => True) (declareAll line bindings context) (declareAll line bindings other) := by
  induction bindings generalizing context other with
  | nil => exact .ok trivial h
  | cons binding rest ih =>
    obtain ⟨hbinding, hrest⟩ := List.forall_mem_cons.1 hbindings
    exact (goes_declare hdeclare line hbinding h).bind fun _ _ _ _ h => ih hrest h

theorem goes_popScope (hS : Tandem S p) (h : Abreast S p (k + 1) r context other) :
    Goes S p k r (fun _ => True) (popScope context) (popScope other) := by
  obtain ⟨outer, outer', hpop, hpop', hscopes⟩ := hS.pop h.scopes
  rw [popScope, popScope, hpop, hpop']
  exact .ok trivial (h.withScopes hscopes)

theorem goes_inScope (hS : Tandem S p) {body body' : ContextM α}
    (hbody : ∀ {context other}, Abreast S p (k + 1) r context other →
      Goes S p (k + 1) r V (body context) (body' other))
    (h : Abreast S p k r context other) : Goes S p k r V (inScope body context) (inScope body' other) := by
  have hrun := hbody (h.withScopes (hS.push h.scopes))
  rw [inScope, inScope]
  generalize body { context with scopes := context.scopes.push } = result,
    body' { other with scopes := other.scopes.push } = result' at hrun
  cases hrun with
  | ok hv hr => exact (goes_popScope hS hr).bind fun _ _ _ _ h => .ok hv h
  | error hf he => exact (goes_popScope hS he).bind fun _ _ _ _ h => .error hf h

/-- A body is run one call deeper, where there is room for one call less. -/
theorem goes_inCall {body body' : ContextM α} (line : Nat)
    (hbody : ∀ s < r, ∀ {context other}, Abreast S p k s context other → Goes S p k s V (body context) (body' other))
    (h : Abreast S p k r context other) : Goes S p k r V (inCall line body context) (inCall line body' other) := by
  rw [inCall, inCall]
  by_cases hroom : context.config.maxCallDepth ≤ context.callDepth
  · have hroom' : other.config.maxCallDepth ≤ other.callDepth := by
      rw [h.config, h.callDepth]
      exact hroom
    rw [if_pos hroom, if_pos hroom']
    exact .error trivial h
  · have hroom' : ¬other.config.maxCallDepth ≤ other.callDepth := by
      rw [h.config, h.callDepth]
      exact hroom
    have hr := h.room
    have hdeeper : Abreast S p k (r - 1) { context with callDepth := context.callDepth + 1 }
        { other with callDepth := other.callDepth + 1 } :=
      ⟨h.registry, h.config, congrArg (· + 1) h.callDepth, by dsimp only; omega, h.hosts, h.scopes⟩
    have hback : ∀ {after after' : Context}, Abreast S p k (r - 1) after after' →
        Abreast S p k r { after with callDepth := after.callDepth - 1 }
          { after' with callDepth := after'.callDepth - 1 } := by
      intro after after' h
      have hr := h.room
      exact ⟨h.registry, h.config, congrArg (· - 1) h.callDepth, by dsimp only; omega, h.hosts, h.scopes⟩
    have hrun := hbody (r - 1) (by omega) hdeeper
    rw [if_neg hroom, if_neg hroom']
    generalize body { context with callDepth := context.callDepth + 1 } = result,
      body' { other with callDepth := other.callDepth + 1 } = result' at hrun
    cases hrun with
    | ok hv hr => exact .ok hv (hback hr)
    | error hf he => exact .error hf (hback he)

end ContextM

/-! ## Calls -/

/-- The two executors run bodies alike where at most `r` calls may be nested. -/
def Executor.Paired (S : Nat → ScopeStack → ScopeStack → Prop) (p : List Token → Prop) (r : Nat)
    (executor executor' : Executor) : Prop :=
  ∀ {k context other} body bindings, Abreast S p k r context other → p body →
    (∀ binding ∈ bindings, binding.item.BodiesIn p) →
      ContextM.Goes S p k r (·.item.BodiesIn p) (executor body bindings context) (executor' body bindings other)

variable {executor executor' : Executor}

theorem mem_of_mem_bind {parameters : List Parameter} {items : List Item} {binding : Binding}
    (h : binding ∈ List.zipWith Parameter.bind parameters items) : binding.item ∈ items := by
  induction parameters generalizing items with
  | nil => simp at h
  | cons parameter parameters ih =>
    cases items with
    | nil => simp at h
    | cons item items =>
      rcases List.mem_cons.1 h with rfl | h
      · exact List.mem_cons_self
      · exact List.mem_cons_of_mem _ (ih h)

theorem Failure.Possible.rebase {failure : Failure} (h : failure.Possible p) (function : Function) :
    (function.rebase failure).Possible p := by
  cases failure with
  | error error => trivial
  | fault broken => exact h

/-- A call gives what its body returned, or nothing. -/
theorem holds_of_conclude (q : Item → Prop) (hunit : q .unit) {function : Function} {outcome : Outcome}
    {result : CallResult} (houtcome : q outcome.item) (h : function.conclude outcome = .ok result) : q result.item := by
  unfold Function.conclude at h
  split at h
  · split at h
    · cases h
      exact houtcome
    · cases h
  · split at h
    · cases h
      exact hunit
    · cases h

theorem goes_runBody (hpaired : ∀ s < r, executor.Paired S p s executor') {function : Function} {items : List Item}
    (hbody : p function.body) (hitems : ∀ item ∈ items, item.BodiesIn p) (h : Abreast S p k r context other) :
    ContextM.Goes S p k r (·.item.BodiesIn p) (function.runBody executor items context)
      (function.runBody executor' items other) := by
  refine ContextM.goes_inCall _ (fun s hs context other h => ?_) h
  have hrun := hpaired s hs function.body (List.zipWith Parameter.bind function.parameters items) h hbody
    fun binding hbinding => hitems _ (mem_of_mem_bind hbinding)
  generalize executor function.body (List.zipWith Parameter.bind function.parameters items) context = result,
    executor' function.body (List.zipWith Parameter.bind function.parameters items) other = result' at hrun
  cases hrun with
  | ok hv hr => exact .ok hv hr
  | error hf he => exact .error (hf.rebase function) he

theorem goes_invoke (hpaired : ∀ s < r, executor.Paired S p s executor') {function : Function} {items : List Item}
    (hbody : p function.body) (hitems : ∀ item ∈ items, item.BodiesIn p) (h : Abreast S p k r context other) :
    ContextM.Goes S p k r (·.item.BodiesIn p) (function.invoke executor items context)
      (function.invoke executor' items other) := by
  rw [Function.invoke, Function.invoke]
  cases function.refusal? items with
  | some kind => exact .error trivial h
  | none =>
    refine (goes_runBody hpaired hbody hitems h).bind fun outcome context other houtcome h => ?_
    cases hresult : function.conclude outcome with
    | ok result => exact .ok (holds_of_conclude (Item.BodiesIn p) Item.bare_unit.bodiesIn houtcome hresult) h
    | error kind => exact .error trivial h

/-- Executors that run the bodies of calls alike let expressions go alike. -/
theorem couples_of_paired (hS : Tandem S p) (hsteady : executor.Steady)
    (hpaired : ∀ s < r, executor.Paired S p s executor') : executor.Couples executor' (Abreast S p k r) p where
  captures := hS.captures
  steady := hsteady
  registry h := h.registry
  hosts h := h.hosts
  lookup? h name := hS.lookup? h.scopes name
  bodiesIn h hfind := hS.bodiesIn h.scopes hfind
  assign h hfind hitem := by
    obtain ⟨changed, changed', hassign, hassign', hscopes⟩ := hS.assign h.scopes hfind hitem
    exact ⟨changed, changed', hassign, hassign', h.withScopes hscopes⟩
  invoke h hbody hitems := goes_invoke hpaired hbody hitems h

/-! ## Statements -/

namespace WalkM

variable {cursor : Cursor} {C : Context → Context → Prop}

theorem goes_declaredTypes (hw : cursor.Within n) (hc : C context other) :
    Goes C p n (fun _ => True) (declaredTypes ⟨cursor, context⟩) (declaredTypes ⟨cursor, other⟩) := by
  rw [declaredTypes]
  refine goes_currentKind fun kind _ => ?_
  split
  · refine (goes_reading (CursorM.reads_advance hw) hc).bind fun _ cursor context other _ hw hc => ?_
    refine (goes_reading (CursorM.reads_expect hw) hc).bind fun _ cursor context other _ hw hc => ?_
    exact goes_pure trivial hw hc
  · exact goes_pure trivial hw hc

theorem goes_evaluation (hC : executor.Couples executor' C p) (hw : cursor.Within n) (hc : C context other) :
    Goes C p n (·.BodiesIn p) (evaluation executor ⟨cursor, context⟩) (evaluation executor' ⟨cursor, other⟩) :=
  goes_valueOf (coupled_expression hC) (Nat.le_refl n) hw hc

theorem goes_declaration (hdeclare : Declares (S k) p) (hC : executor.Couples executor' (Abreast S p k r) p)
    (hnext : cursor.advance.Within n) (hc : Abreast S p k r context other) :
    Goes (Abreast S p k r) p n (·.item.BodiesIn p) (declaration executor ⟨cursor, context⟩)
      (declaration executor' ⟨cursor, other⟩) := by
  rw [declaration, declaration]
  refine (goes_reading (CursorM.reads_next hnext) hc).bind fun keyword cursor context other _ hw hc => ?_
  refine goes_currentLine fun line => ?_
  refine (goes_reading (CursorM.reads_expect hw) hc).bind fun name cursor context other _ hw hc => ?_
  refine (goes_declaredTypes hw hc).bind fun types cursor context other _ hw hc => ?_
  refine (goes_reading (CursorM.reads_expect hw) hc).bind fun _ cursor context other _ hw hc => ?_
  refine (goes_evaluation hC hw hc).bind fun item cursor context other hitem hw hc => ?_
  split
  · refine (goes_acting (ContextM.goes_declare hdeclare line hitem hc) hw).bind fun _ cursor context other _ hw hc => ?_
    exact goes_pure Item.bare_unit.bodiesIn hw hc
  · exact goes_fail _ hc

theorem goes_returnStatement (hC : executor.Couples executor' C p) (hnext : cursor.advance.Within n)
    (hc : C context other) :
    Goes C p n (·.item.BodiesIn p) (returnStatement executor ⟨cursor, context⟩)
      (returnStatement executor' ⟨cursor, other⟩) := by
  rw [returnStatement, returnStatement]
  refine (goes_reading (CursorM.reads_next hnext) hc).bind fun _ cursor context other _ hw hc => ?_
  refine goes_currentKind fun kind _ => ?_
  split
  · exact goes_pure Item.bare_unit.bodiesIn hw hc
  · refine (goes_evaluation hC hw hc).bind fun item cursor context other hitem hw hc => ?_
    exact goes_pure hitem hw hc

theorem ofContext_popScope {walk : Walk} {scopes : ScopeStack} (h : walk.context.scopes.pop = .ok scopes) :
    ofContext ContextM.popScope walk = .ok () { walk with context.scopes := scopes } := by
  rw [ofContext, ContextM.popScope, h]

theorem goes_inScope (hS : Tandem S p) {body body' : WalkM α}
    (hbody : Coupled (Abreast S p (k + 1) r) p n V body body') (hw : cursor.Within n)
    (hc : Abreast S p k r context other) :
    Goes (Abreast S p k r) p n V (inScope body ⟨cursor, context⟩) (inScope body' ⟨cursor, other⟩) := by
  have hrun := hbody n (Nat.le_refl n) cursor _ _ hw (hc.withScopes (hS.push hc.scopes))
  rw [inScope, inScope]
  generalize body ⟨cursor, { context with scopes := context.scopes.push }⟩ = result,
    body' ⟨cursor, { other with scopes := other.scopes.push }⟩ = result' at hrun
  cases hrun with
  | ok hv hr =>
    obtain ⟨heq, hw, hc⟩ := hr
    obtain ⟨scopes, scopes', hpop, hpop', hscopes⟩ := hS.pop hc.scopes
    simp only [bind_of_ok (ofContext_popScope hpop), bind_of_ok (ofContext_popScope hpop')]
    exact .ok hv ⟨heq, hw, hc.withScopes hscopes⟩
  | error hf he =>
    obtain ⟨heq, hc⟩ := he
    obtain ⟨scopes, scopes', hpop, hpop', hscopes⟩ := hS.pop hc.scopes
    simp only [bind_of_ok (ofContext_popScope hpop), bind_of_ok (ofContext_popScope hpop')]
    exact .error hf ⟨heq, hc.withScopes hscopes⟩

theorem goes_nestedBlock (hS : Tandem S p) {nested nested' : WalkM Outcome}
    (hnested : Coupled (Abreast S p (k + 1) r) p n (·.item.BodiesIn p) nested nested')
    (hnext : cursor.advance.Within n) (hc : Abreast S p k r context other) :
    Goes (Abreast S p k r) p n (·.item.BodiesIn p) (nestedBlock nested ⟨cursor, context⟩)
      (nestedBlock nested' ⟨cursor, other⟩) := by
  rw [nestedBlock, nestedBlock]
  refine (goes_reading (CursorM.reads_next hnext) hc).bind fun _ cursor context other _ hw hc => ?_
  refine (goes_inScope hS hnested hw hc).bind fun outcome cursor context other houtcome hw hc => ?_
  cases outcome with
  | completed item =>
    refine (goes_reading (CursorM.reads_expect hw) hc).bind fun _ cursor context other _ hw hc => ?_
    exact goes_pure houtcome hw hc
  | returned item => exact goes_pure houtcome hw hc

/-- A statement, given how it goes as an expression if it is one. -/
theorem goes_statement (hS : Tandem S p) (hdeclare : Declares (S k) p)
    (hC : executor.Couples executor' (Abreast S p k r) p) {nested nested' : WalkM Outcome}
    (hnested : Coupled (Abreast S p (k + 1) r) p n (·.item.BodiesIn p) nested nested')
    (hnext : cursor.advance.Within n) (hc : Abreast S p k r context other)
    (hvalue : Goes (Abreast S p k r) p n (·.BodiesIn p) (evaluation executor ⟨cursor, context⟩)
      (evaluation executor' ⟨cursor, other⟩)) :
    Goes (Abreast S p k r) p n (·.item.BodiesIn p) (statement executor nested ⟨cursor, context⟩)
      (statement executor' nested' ⟨cursor, other⟩) := by
  rw [statement, statement]
  refine goes_current ?_
  refine Alike.ite (fun _ => goes_declaration hdeclare hC hnext hc) fun _ => ?_
  refine Alike.ite (fun _ => goes_returnStatement hC hnext hc) fun _ => ?_
  refine Alike.ite (fun _ => goes_nestedBlock hS hnested hnext hc) fun _ => ?_
  exact hvalue.bind fun item cursor context other hitem hw hc => goes_pure hitem hw hc

theorem goes_statementEnd (hw : cursor.Within n) (hc : C context other) :
    Goes C p n (fun _ => True) (statementEnd ⟨cursor, context⟩) (statementEnd ⟨cursor, other⟩) := by
  rw [statementEnd, bind_get, bind_get]
  dsimp only
  split
  · exact goes_pure trivial hw hc
  · exact goes_reading CursorM.reads_unexpectedCurrent hc

/-- Skipping ends neither on a line break nor on a semicolon. -/
theorem kind_ne_newline_of_skipStatementBreaks {cursor later : Cursor} {after : Context} (hend : cursor.Terminated)
    (hrun : ofCursor CursorM.skipStatementBreaks ⟨cursor, context⟩ = .ok () ⟨later, after⟩) :
    later.current.kind ≠ .newline := by
  cases hrun
  intro hnewline
  have hskipped : TokenKind.isBreak cursor.skipStatementBreaks.current.kind = false :=
    Cursor.current_skipWhile hend rfl
  rw [hnewline] at hskipped
  cases hskipped

/-- Statements, with two numbers of steps. Every statement takes a token at least. -/
theorem coupled_statementsFrom (hS : Tandem S p) (hC : ∀ k, executor.Couples executor' (Abreast S p k r) p)
    (hdeclare : Declares (S k) p) {steps steps' N : Nat} (hsteps : N ≤ steps) (hsteps' : N ≤ steps')
    (stop : TokenKind) {last : Item} (hlast : last.BodiesIn p) :
    Coupled (Abreast S p k r) p N (·.item.BodiesIn p) (statementsFrom executor steps stop last)
      (statementsFrom executor' steps' stop last) := by
  -- a round takes a token, so the tokens to come are fewer than the steps that are left
  induction steps generalizing N steps' k stop last with
  | zero =>
    intro n hn cursor context other hw hc
    exact absurd hw.length (by omega)
  | succ steps ih =>
    intro n hn start context other hw hc
    obtain ⟨n, rfl⟩ := Nat.exists_eq_add_one.2 (Nat.lt_of_le_of_lt (Nat.zero_le _) hw.length)
    obtain ⟨steps', rfl⟩ : ∃ m, steps' = m + 1 := ⟨steps' - 1, by omega⟩
    have hend := hw.terminated
    rw [statementsFrom, statementsFrom]
    refine (goes_reading (CursorM.reads_skipStatementBreaks hw) hc).bindRun
      fun _ cursor context other hrun _ hw hc => ?_
    refine goes_currentKind fun kind hkind => ?_
    split
    · exact goes_pure hlast hw hc
    split
    · exact goes_failHere _ hc
    · rename_i heof
      rw [← hkind] at heof
      have hnested : Coupled (Abreast S p (k + 1) r) p n (·.item.BodiesIn p)
          (statementsFrom executor steps (.closing .curly) .unit)
          (statementsFrom executor' steps' (.closing .curly) .unit) :=
        ih (hS.declare k) (by omega) (by omega) _ Item.bare_unit.bodiesIn
      have hvalue := (goes_expression_succ (hC k) hw heof (kind_ne_newline_of_skipStatementBreaks hend hrun) hc).bind
        fun _ _ _ _ h hw hc => goes_calculate h hw hc
      refine (goes_statement hS hdeclare (hC k) hnested (hw.advance heof) hc hvalue).bind
        fun outcome cursor context other houtcome hw hc => ?_
      cases outcome with
      | returned item => exact goes_pure houtcome (hw.mono (Nat.le_succ n)) hc
      | completed item =>
        refine (goes_statementEnd hw hc).bind fun _ cursor context other _ hw hc => ?_
        have hrest : Coupled (Abreast S p k r) p n (·.item.BodiesIn p)
            (statementsFrom executor steps stop item) (statementsFrom executor' steps' stop item) :=
          ih hdeclare (by omega) (by omega) stop houtcome
        exact (hrest n (Nat.le_refl n) cursor context other hw hc).mono (Nat.le_succ n)

end WalkM

end GradualScript
