import GradualScript.Proofs.Scope.Levels
import GradualScript.Proofs.Walk.Balance
import GradualScript.Proofs.Walk.Comparison

/-!
# Constants are constant

* `ScopeStack.KeepsConstants` : every constant is in its scope with its value, be it visible or shadowed;
* `WalkM.Writes` : an assignment stores its value in the binding that was checked before the value was known;
* `constants_persist` : both, of programs, calls, statements, expressions and assignments.
-/

set_option autoImplicit false

namespace GradualScript

open Scope (bindingAt? Resolves Stores)

/-- The same scopes with the same constants in them. -/
structure ScopeStack.KeepsConstants (stack later : ScopeStack) : Prop where
  depth : later.depth = stack.depth
  constant : ∀ level name binding, bindingAt? stack.toList level name = some binding →
    binding.isMutable = false → bindingAt? later.toList level name = some binding

theorem Binding.Persists.eq_of_constant {binding later : Binding} (h : binding.Persists later)
    (hconstant : binding.isMutable = false) : later = binding := by
  obtain ⟨hname, hmutable, htypes, hitem⟩ := h
  cases later
  cases binding
  simp_all

theorem Context.Grows.keepsConstants {context later : Context} (h : context.Grows later) :
    context.scopes.KeepsConstants later.scopes where
  depth := by
    have hlength := List.Forall₂.length_eq h.outer
    rw [ScopeStack.depth, ScopeStack.depth, hlength]
  constant := by
    intro level name binding hfound hconstant
    cases level with
    | zero =>
      obtain ⟨binding', hfound', hpersists⟩ := h.innermost.find? hfound
      rw [hpersists.eq_of_constant hconstant] at hfound'
      exact hfound'
    | succ level =>
      have houter : bindingAt? context.scopes.outer level name = some binding := hfound
      rcases Scope.bindingAt?_of_persists h.outer level name with ⟨hnone, -⟩ | ⟨_, binding', hbound, hbound', hpersists⟩
      · rw [houter] at hnone
        cases hnone
      · rw [houter] at hbound
        cases hbound
        rw [hpersists.eq_of_constant hconstant] at hbound'
        exact hbound'

namespace WalkM

/-- The run of an assignment `name = value`: the name stands for a variable when the value begins to be evaluated,
for the same one when it has been evaluated, and into this one the value is stored. -/
structure Writes (inner : WalkM Expression) (walk : Walk) (item : Item) (later : Walk) (level : Nat)
    (binding : Binding) : Prop where
  checked : Resolves walk.context.scopes.toList walk.cursor.current.text level binding
  isMutable : binding.isMutable = true
  written : ∃ (start evaluated : Walk) (found : Binding), start.context = walk.context ∧
    valueOf inner start = .ok item evaluated ∧
    Resolves evaluated.context.scopes.toList walk.cursor.current.text level found ∧
    found.signature = binding.signature ∧
    Stores level walk.cursor.current.text item evaluated.context.scopes.toList later.context.scopes.toList

theorem context_of_ofCursor {α : Type} {m : CursorM α} {cursor : Cursor} {context : Context} {later : Walk} {a : α}
    (h : ofCursor m ⟨cursor, context⟩ = .ok a later) : later.context = context := by
  rw [ofCursor] at h
  split at h
  · cases h
    rfl
  · cases h

theorem assign_of_resolves {walk later : Walk} {name : String} {item : Item} {level : Nat} {binding : Binding}
    (hresolves : Resolves walk.context.scopes.toList name level binding)
    (h : ofContext (ContextM.assign name item) walk = .ok () later) :
    Stores level name item walk.context.scopes.toList later.context.scopes.toList := by
  obtain ⟨changed, hchanged, hstores⟩ := ScopeStack.assign_stores hresolves item
  rw [ofContext, ContextM.assign, hchanged] at h
  cases h
  exact hstores

theorem writes_assignment {inner : WalkM Expression} (hinner : Keeping Context.Persists inner) {walk later : Walk}
    {item : Item} (h : assignment inner walk = .ok item later) :
    ∃ level binding, Writes inner walk item later level binding := by
  obtain ⟨_, _, hline, h⟩ := bind_eq_ok.1 h
  cases hline
  obtain ⟨_, _, hadvance, h⟩ := bind_eq_ok.1 h
  cases hadvance
  obtain ⟨_, start, hsign, h⟩ := bind_eq_ok.1 h
  have hstart : start.context = walk.context := context_of_ofCursor hsign
  rw [bind_get] at h
  cases hfind : start.context.scopes.lookup? walk.cursor.current.text with
  | none =>
    rw [hfind] at h
    cases h
  | some binding =>
    rw [hfind] at h
    dsimp only at h
    split at h
    · rename_i hmutable
      obtain ⟨value, evaluated, hvalue, h⟩ := bind_eq_ok.1 h
      obtain ⟨_, _, hassign, h⟩ := bind_eq_ok.1 h
      cases h
      obtain ⟨level, hchecked⟩ := ScopeStack.lookup?_eq_some_iff.1 hfind
      obtain ⟨found, hfound, hpersists⟩ := hchecked.of_persists ((keeping_valueOf hinner).ok hvalue).context.scopes
      rw [hstart] at hchecked
      refine ⟨level, binding, hchecked, hmutable, start, evaluated, found, hstart, hvalue, hfound, ?_,
        assign_of_resolves hfound hassign⟩
      rw [Binding.signature, Binding.signature, hpersists.name, hpersists.isMutable, hpersists.types]
    · cases h

end WalkM

/-- Whatever is run, and whether it succeeds or fails, every constant of every scope stays as it is. A value is
stored in the very variable that was found before the value was evaluated. -/
theorem constants_persist (context : Context) :
    (∀ text, context.scopes.KeepsConstants (endState (evaluate text context)).scopes) ∧
    (∀ levels (function : Function) items,
      context.scopes.KeepsConstants (endState (function.invoke (Executor.block levels) items context)).scopes) ∧
    (∀ cursor levels steps, context.scopes.KeepsConstants
      (endState (WalkM.statement (Executor.block levels)
        (WalkM.statementsFrom (Executor.block levels) steps (.closing .curly) .unit)
        ⟨cursor, context⟩)).context.scopes) ∧
    (∀ cursor levels, context.scopes.KeepsConstants
      (endState (WalkM.expression (Executor.block levels) ⟨cursor, context⟩)).context.scopes) ∧
    (∀ cursor levels steps item later,
      WalkM.assignment (WalkM.expressionWithin (Executor.block levels) steps) ⟨cursor, context⟩ = .ok item later →
      ∃ level binding, WalkM.Writes (WalkM.expressionWithin (Executor.block levels) steps) ⟨cursor, context⟩ item later
        level binding) := by
  refine ⟨fun text => ?_, fun levels function items => ?_, fun cursor levels steps => ?_, fun cursor levels => ?_,
    fun cursor levels steps item later h => ?_⟩
  · exact (keeps_evaluate text context).grows.keepsConstants
  · exact ((Executor.steady_block levels).keeps_invoke function items context).grows.keepsConstants
  · have hsteady := Executor.steady_block levels
    have hnested : WalkM.Keeping Context.Grows
        (WalkM.statementsFrom (Executor.block levels) steps (.closing .curly) .unit) :=
      WalkM.growing_statementsFrom hsteady _ _
    exact (WalkM.growing_statement hsteady hnested ⟨cursor, context⟩).context.keepsConstants
  · have hkeeps := WalkM.keeping_expression (Executor.steady_block levels).respects
    exact (hkeeps ⟨cursor, context⟩).context.grows.keepsConstants
  · refine WalkM.writes_assignment ?_ h
    exact WalkM.keeping_expressionBy fun first =>
      WalkM.keeping_elements (Executor.steady_block levels).respects first []

/-- The tokens `x = f(x)`. -/
def callingAssignment : Cursor where
  before := []
  current := ⟨.name, "x", .null⟩
  rest := [⟨.assignment, "=", .null⟩, ⟨.name, "f", .null⟩, ⟨.opening .round, "(", .null⟩, ⟨.name, "x", .null⟩,
    ⟨.closing .round, ")", .null⟩, Token.eof]

/-- A function of a parameter `x`, with the body `x = !x; return x`. -/
def negatingFunction : Function where
  parameters := [⟨"x", .any⟩]
  body := [⟨.name, "x", .null⟩, ⟨.assignment, "=", .null⟩, ⟨.operator, "!", .null⟩, ⟨.name, "x", .null⟩,
    ⟨.semicolon, ";", .null⟩, ⟨.keyword, "return", .null⟩, ⟨.name, "x", .null⟩, Token.eof]
  returnTypes := .any
  startLine := 0
  mark := none

/-- A variable `x`, which shadows a constant of the same name, and a constant `f` that is the function. -/
def shadowingContext (x : Bool) : Context where
  scopes := ⟨[⟨"x", true, .any, .bool x⟩], [[⟨"x", false, .any, .bool true⟩,
    ⟨"f", false, .any, .function negatingFunction⟩]]⟩
  registry := .empty
  config := default
  callDepth := 0

/-- The function assigns to a name that it has bound anew, and the assignment around it goes to the variable outside. -/
theorem constants_persist_shadowing :
    WalkM.assignment (WalkM.expressionWithin (Executor.block 2) 6) ⟨callingAssignment, shadowingContext true⟩ =
      .ok (.bool false) ⟨callingAssignment.seek 6, shadowingContext false⟩ ∧
    ∃ level binding, WalkM.Writes (WalkM.expressionWithin (Executor.block 2) 6)
      ⟨callingAssignment, shadowingContext true⟩ (.bool false) ⟨callingAssignment.seek 6, shadowingContext false⟩
      level binding := by
  have hrun : WalkM.assignment (WalkM.expressionWithin (Executor.block 2) 6)
      ⟨callingAssignment, shadowingContext true⟩ =
        .ok (.bool false) ⟨callingAssignment.seek 6, shadowingContext false⟩ :=
    Comparable.eq_of_same (by decide +kernel)
  obtain ⟨-, -, -, -, hwrites⟩ := constants_persist (shadowingContext true)
  exact ⟨hrun, hwrites _ _ _ _ _ hrun⟩

end GradualScript
