import GradualScript.Program
import GradualScript.Proofs.Scope.Persistence
import GradualScript.Proofs.Walk.Moves

/-!
# Every way out leaves the scopes as they were

Reading an expression opens and closes scopes and calls, and stores values in variables; running a statement may
declare names in the innermost scope besides. This is all that either does, whether it succeeds or fails.

* `Executor.Steady` : an executor over whose runs contexts persist;
* `growing_statements`, `steady_block` : statements, and bodies at every level of calls;
* `evaluate_balanced` : a program and a call give back scopes, depth, registry and limits.
-/

set_option autoImplicit false

namespace GradualScript

/-- The executor leaves the bindings that it finds, but for the values of variables. -/
def Executor.Steady (executor : Executor) : Prop :=
  ∀ body bindings, Keeps Context.Persists (executor body bindings)

variable {executor : Executor}

theorem Executor.Steady.keeps_invoke (h : executor.Steady) (function : Function) (items : List Item) :
    Keeps Context.Persists (function.invoke executor items) := by
  unfold Function.invoke
  split
  · exact Keeps.throw _
  · refine Keeps.bind ?_ fun outcome => ?_
    · refine ContextM.keeps_inCall _ fun context => ?_
      have hbody := h function.body (List.zipWith Parameter.bind function.parameters items) context
      cases hrun : executor function.body (List.zipWith Parameter.bind function.parameters items) context with
      | ok outcome after =>
        rw [hrun] at hbody
        exact hbody
      | error failure after =>
        rw [hrun] at hbody
        exact hbody
    · split
      · exact Keeps.pure _
      · exact Keeps.throw _

/-- A value goes into the binding that was found mutable before the value was known: in between, the name keeps
standing for that binding. -/
theorem Context.Persists.assign {context later : Context} {name : String} {binding : Binding} (item : Item)
    (hfind : context.scopes.lookup? name = some binding) (hmutable : binding.isMutable = true)
    (h : context.Persists later) : context.Persists (endState (ContextM.assign name item later)) := by
  rcases h.scopes.lookup? name with ⟨hnone, -⟩ | ⟨found, found', hfound, hfound', hpersists⟩
  · rw [hnone] at hfind
    cases hfind
  · rw [hfound] at hfind
    cases hfind
    obtain ⟨changed, hassign⟩ := ScopeStack.exists_assign hfound' item
    have hstep := ScopeStack.assign_persists hfound' (hpersists.isMutable.trans hmutable) hassign
    rw [ContextM.assign, hassign]
    exact Context.lasting_persists.trans h ⟨hstep, rfl, rfl, rfl⟩

theorem Executor.Steady.respects (h : executor.Steady) : executor.Respects Context.Persists where
  invoke := h.keeps_invoke
  assign item hfind hmutable hpersists := hpersists.assign item hfind hmutable

namespace WalkM

open CursorM

variable {α : Type} {steps : Nat}

/-! ## Statements -/

theorem Keeping.growing {m : WalkM α} (h : Keeping Context.Persists m) : Keeping Context.Grows m :=
  h.mono fun _ _ hm => ⟨hm.cursor, hm.context.grows⟩

theorem growing_evaluation (he : executor.Steady) : Keeping Context.Grows (evaluation executor) :=
  (keeping_evaluation he.respects).growing

/-- A block with a scope of its own leaves the scopes around it as they were. -/
theorem steady_inScope {body : WalkM α} (h : Keeping Context.Grows body) :
    Keeping Context.Persists (inScope body) := by
  intro walk
  unfold inScope
  cases hbody : body { walk with context.scopes := walk.context.scopes.push } with
  | ok a after =>
    have hmoves := h.ok hbody
    obtain ⟨scopes, hpop, hpersists⟩ := ContextM.popScope_of_grows hmoves.context
    have hrun : ofContext ContextM.popScope after = .ok () { after with context.scopes := scopes } := by
      rw [ofContext, hpop]
    simp only [bind_of_ok hrun]
    exact ⟨hmoves.cursor, hpersists⟩
  | error failure after =>
    have hmoves := h.error hbody
    obtain ⟨scopes, hpop, hpersists⟩ := ContextM.popScope_of_grows hmoves.context
    have hrun : ofContext ContextM.popScope after = .ok () { after with context.scopes := scopes } := by
      rw [ofContext, hpop]
    simp only [bind_of_ok hrun]
    exact ⟨hmoves.cursor, hpersists⟩

theorem growing_declaredTypes : Keeping Context.Grows declaredTypes := by
  refine (keeping_reading advances_currentKind).bind fun kind => ?_
  split
  · refine (keeping_reading advances_advance).bind fun _ => ?_
    exact (keeping_reading (advances_expect _)).bind fun _ => Keeps.pure _
  · exact Keeps.pure _

theorem growing_declaration (he : executor.Steady) : Keeping Context.Grows (declaration executor) := by
  refine (keeping_reading advances_advance).bind fun keyword => keeping_currentLine.bind fun line => ?_
  refine (keeping_reading (advances_expect _)).bind fun name => growing_declaredTypes.bind fun types => ?_
  refine (keeping_reading (advances_expect _)).bind fun _ => (growing_evaluation he).bind fun item => ?_
  split
  · exact (keeping_acting (ContextM.keeps_declare _ _)).bind fun _ => Keeps.pure _
  · exact keeping_fail _

theorem growing_returnStatement (he : executor.Steady) : Keeping Context.Grows (returnStatement executor) := by
  refine (keeping_reading advances_advance).bind fun _ => (keeping_reading advances_currentKind).bind fun kind => ?_
  split
  · exact Keeps.pure _
  · exact (growing_evaluation he).bind fun _ => Keeps.pure _

theorem growing_nestedBlock {statements : WalkM Outcome} (h : Keeping Context.Grows statements) :
    Keeping Context.Grows (nestedBlock statements) := by
  refine (keeping_reading advances_advance).bind fun _ => (steady_inScope h).growing.bind fun outcome => ?_
  split
  · exact (keeping_reading (advances_expect _)).bind fun _ => Keeps.pure _
  · exact Keeps.pure _

theorem growing_statement (he : executor.Steady) {nested : WalkM Outcome} (h : Keeping Context.Grows nested) :
    Keeping Context.Grows (statement executor nested) := by
  refine keeping_current.bind fun token => ?_
  split
  · exact growing_declaration he
  · split
    · exact growing_returnStatement he
    · split
      · exact growing_nestedBlock h
      · exact (growing_evaluation he).bind fun _ => Keeps.pure _

theorem growing_statementEnd : Keeping Context.Grows statementEnd := by
  refine Keeps.get.bind fun walk => ?_
  dsimp only
  split
  · exact Keeps.pure _
  · exact keeping_reading advances_unexpectedCurrent

theorem growing_statementsFrom (he : executor.Steady) (stop : TokenKind) (last : Item) :
    Keeping Context.Grows (statementsFrom executor steps stop last) := by
  induction steps generalizing stop last with
  | zero => exact keeping_outOfSteps
  | succ steps ih =>
    refine (keeping_reading advances_skipStatementBreaks).bind fun _ => ?_
    refine (keeping_reading advances_currentKind).bind fun kind => ?_
    split
    · exact Keeps.pure _
    · split
      · exact keeping_failHere _
      · refine (growing_statement he (ih _ _)).bind fun outcome => ?_
        split
        · exact Keeps.pure _
        · exact growing_statementEnd.bind fun _ => ih _ _

theorem growing_statements (he : executor.Steady) : Keeping Context.Grows (statements executor) :=
  Keeps.get.bind fun _ => growing_statementsFrom he _ _

end WalkM

/-! ## Bodies and programs -/

theorem ContextM.keeps_walk {R : Context → Context → Prop} {α : Type} (cursor : Cursor) {body : WalkM α}
    (h : Keeps (Walk.Moves R) body) : Keeps R (ContextM.walk cursor body) := by
  intro context
  have hbody := h ⟨cursor, context⟩
  unfold ContextM.walk
  cases hrun : body ⟨cursor, context⟩ with
  | ok a after =>
    rw [hrun] at hbody
    exact hbody.context
  | error failure after =>
    rw [hrun] at hbody
    exact hbody.context

/-- Bodies are run in a scope of their own, at every level of calls. -/
theorem Executor.steady_block (levels : Nat) : (Executor.block levels).Steady := by
  induction levels with
  | zero => exact fun body bindings => Keeps.throw _
  | succ levels ih =>
    intro body bindings
    refine ContextM.keeps_inScope (Keeps.bind (ContextM.keeps_declareAll 0 bindings) ?_)
    intro _
    split
    · exact ContextM.keeps_walk _ (WalkM.growing_statements ih)
    · exact Keeps.throw _

theorem keeps_evaluate (text : String) : Keeps Context.Persists (evaluate text) := by
  refine Keeps.get.bind fun context => ?_
  unfold evaluateWith
  split
  · exact (Executor.steady_block _ _ _).bind fun _ => Keeps.pure _
  · exact Keeps.throw _

/-- A binding without its value. -/
def Binding.signature (binding : Binding) : String × Bool × TypeSet :=
  (binding.name, binding.isMutable, binding.types)

/-- The same depths, registry and limits, and in every scope the same names with the same signatures. -/
structure Context.Balanced (context later : Context) : Prop where
  depth : later.scopes.depth = context.scopes.depth
  callDepth : later.callDepth = context.callDepth
  registry : later.registry = context.registry
  config : later.config = context.config
  signatures : later.scopes.toList.map (·.map Binding.signature) = context.scopes.toList.map (·.map Binding.signature)

theorem Scope.Persists.signatures {scope later : Scope} (h : scope.Persists later) :
    later.map Binding.signature = scope.map Binding.signature := by
  induction h with
  | nil => rfl
  | cons hb _ ih =>
    rw [List.map_cons, List.map_cons, ih, Binding.signature, Binding.signature, hb.name, hb.isMutable, hb.types]

theorem Context.Persists.balanced {context later : Context} (h : context.Persists later) :
    context.Balanced later where
  depth := by
    have hlength := List.Forall₂.length_eq h.scopes
    simpa [ScopeStack.toList, ScopeStack.depth] using hlength.symm
  callDepth := h.callDepth
  registry := h.registry
  config := h.config
  signatures := by
    have hscopes : List.Forall₂ Scope.Persists context.scopes.toList later.scopes.toList := h.scopes
    generalize context.scopes.toList = scopes, later.scopes.toList = scopes' at hscopes
    induction hscopes with
    | nil => rfl
    | cons hscope _ ih => rw [List.map_cons, List.map_cons, ih, hscope.signatures]

/-- Whatever a program or a call of a function does and however it ends, it gives back the scopes with the names
that were in them, the depth of calls, the registry and the limits. -/
theorem evaluate_balanced (context : Context) :
    (∀ text, context.Balanced (endState (evaluate text context))) ∧
      ∀ (function : Function) (items : List Item),
        context.Balanced (endState (function.invoke context.executor items context)) :=
  ⟨fun text => (keeps_evaluate text context).balanced,
    fun function items => ((Executor.steady_block _).keeps_invoke function items context).balanced⟩

end GradualScript
