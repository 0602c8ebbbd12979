import GradualScript.Proofs.Scope.Levels
import GradualScript.Proofs.Tandem.Operation
import GradualScript.Proofs.Tandem.Program

/-!
# One run beside itself

* `ScopeStack.BodiesIn p`, `Context.BodiesIn p` : the bodies of all functions in reach have the property `p`;
* `ScopeStack.Same` : a stack beside itself, with at least `k` scopes inside the global one (`tandem_same`);
* `Context.room` : how many calls may still be nested;
* `goes_program`, `goes_call`, `goes_operation` : a run with enough levels and steps is the run with those that the
  limits ask for, and keeps the property.
-/

set_option autoImplicit false

namespace GradualScript

open Context (Abreast)
open Scope (bindingAt?)

/-- All functions that are bound anywhere on the stack, or are in objects there, have bodies with the property. -/
def ScopeStack.BodiesIn (p : List Token → Prop) (stack : ScopeStack) : Prop :=
  ∀ level name binding, bindingAt? stack.toList level name = some binding → binding.item.BodiesIn p

/-- The functions that are bound, and those that the host returns, have bodies with the property. -/
structure Context.BodiesIn (p : List Token → Prop) (context : Context) : Prop where
  scopes : context.scopes.BodiesIn p
  hosts : context.registry.BodiesIn p

/-- Nothing is asked of the bodies. -/
theorem Context.bodiesIn_true (context : Context) : context.BodiesIn fun _ => True where
  scopes _ _ _ _ _ _ := trivial
  hosts := ⟨fun _ _ _ _ _ _ _ _ _ => trivial, fun _ _ _ _ _ _ _ _ _ => trivial⟩

/-- How many calls may be nested from here. -/
def Context.room (context : Context) : Nat :=
  context.config.maxCallDepth - context.callDepth

namespace ScopeStack

variable {p : List Token → Prop} {stack : ScopeStack} {k : Nat}

/-- Both stacks are one, with `k` scopes at least inside the global one. -/
structure Same (p : List Token → Prop) (k : Nat) (stack other : ScopeStack) : Prop where
  eq : other = stack
  depth : k < stack.depth
  bodiesIn : stack.BodiesIn p

theorem BodiesIn.push (h : stack.BodiesIn p) : stack.push.BodiesIn p := by
  have hholds : stack.Holds (·.BodiesIn p) := h
  exact hholds.push

theorem BodiesIn.assign {changed : ScopeStack} {level : Nat} {name : String} {item : Item} (h : stack.BodiesIn p)
    (hitem : item.BodiesIn p) (hstores : Scope.Stores level name item stack.toList changed.toList) :
    changed.BodiesIn p := by
  have hholds : stack.Holds (·.BodiesIn p) := h
  exact hholds.stores hitem hstores

theorem BodiesIn.declare {binding : Binding} (h : stack.BodiesIn p) (hbinding : binding.item.BodiesIn p) :
    BodiesIn p { stack with innermost := binding :: stack.innermost } := by
  have hholds : stack.Holds (·.BodiesIn p) := h
  exact hholds.cons hbinding

theorem declares_same (k : Nat) : Declares (Same p k) p := by
  rintro stack _ binding ⟨rfl, hdepth, hbodies⟩ hbinding
  rw [ScopeStack.declare]
  split
  · exact .inl ⟨_, rfl, rfl⟩
  · exact .inr ⟨_, _, rfl, rfl, rfl, hdepth, hbodies.declare hbinding⟩

theorem tandem_same (hcaptures : ∀ tokens, Token.Terminated tokens → p tokens) : Tandem (Same p) p where
  captures := hcaptures
  lookup? := by
    rintro k stack _ ⟨rfl, -, -⟩ name
    rfl
  bodiesIn := by
    rintro k stack _ name binding ⟨rfl, -, hbodies⟩ hfind
    obtain ⟨level, hresolves⟩ := lookup?_eq_some_iff.1 hfind
    exact hbodies level name binding hresolves.found
  assign := by
    rintro k stack _ name binding item ⟨rfl, hdepth, hbodies⟩ hfind hitem
    obtain ⟨level, hresolves⟩ := lookup?_eq_some_iff.1 hfind
    obtain ⟨changed, hassign, hstores⟩ := assign_stores hresolves item
    refine ⟨changed, changed, hassign, hassign, rfl, ?_, hbodies.assign hitem hstores⟩
    have hlength := hstores.length
    simp only [toList, List.length_cons] at hlength
    rw [depth, hlength]
    exact hdepth
  push := by
    rintro k stack _ ⟨rfl, hdepth, hbodies⟩
    exact ⟨rfl, Nat.succ_lt_succ hdepth, hbodies.push⟩
  pop := by
    rintro k ⟨innermost, outer⟩ _ ⟨rfl, hdepth, hbodies⟩
    cases outer with
    | nil => exact absurd hdepth (by simp [depth])
    | cons scope outer =>
      refine ⟨⟨scope, outer⟩, ⟨scope, outer⟩, rfl, rfl, rfl, Nat.lt_of_succ_lt_succ hdepth, ?_⟩
      exact fun level => hbodies (level + 1)
  declare k := declares_same (k + 1)

end ScopeStack

variable {p : List Token → Prop} {context : Context}

/-- Contexts that are abreast with one stack are one. -/
theorem Context.Abreast.eq {other : Context} {k r : Nat} (h : Abreast (ScopeStack.Same p) p k r context other) :
    other = context := by
  obtain ⟨hregistry, hconfig, hdepth, -, -, hscopes, -, -⟩ := h
  cases context
  cases other
  simp_all

theorem ContextM.Goes.same {α : Type} {V : α → Prop} {k r : Nat} {result other : EStateM.Result Failure Context α}
    (h : ContextM.Goes (ScopeStack.Same p) p k r V result other) : result = other :=
  (Alike.eq h (fun _ _ hc => hc.eq) fun _ _ hc => hc.eq).symm

theorem WalkM.Goes.same {α : Type} {V : α → Prop} {k r n : Nat} {result other : EStateM.Result Failure Walk α}
    (h : WalkM.Goes (Abreast (ScopeStack.Same p) p k r) p n V result other) : result = other := by
  have hwalk : ∀ walk later : Walk, later.cursor = walk.cursor →
      Abreast (ScopeStack.Same p) p k r walk.context later.context → later = walk := by
    rintro ⟨cursor, context⟩ ⟨_, _⟩ rfl hc
    rw [Walk.mk.injEq]
    exact ⟨rfl, hc.eq⟩
  exact (Alike.eq h (fun _ _ he => hwalk _ _ he.1 he.2) fun _ _ hr => hwalk _ _ hr.1 hr.2.2).symm

theorem Context.Abreast.bodiesIn {other : Context} {k r : Nat}
    (h : Abreast (ScopeStack.Same p) p k r context other) : context.BodiesIn p :=
  ⟨h.scopes.bodiesIn, h.hosts⟩

theorem Context.BodiesIn.abreast (h : context.BodiesIn p) :
    Abreast (ScopeStack.Same p) p 0 context.room context context where
  registry := rfl
  config := rfl
  callDepth := rfl
  room := by
    rw [Context.room]
    omega
  hosts := h.hosts
  scopes := ⟨rfl, Nat.succ_pos _, h.scopes⟩

variable {steps : List Token → Nat} {levels : Nat}

/-- The executor of the context beside one with at least as many steps and levels. -/
theorem Executor.paired_executor {S : Nat → ScopeStack → ScopeStack → Prop} (hS : Tandem S p)
    (hsteps : ∀ body, body.length ≤ steps body) {r : Nat} (hlevels : r < levels) (hroom : r ≤ context.room) :
    (Executor.within steps levels).Paired S p r context.executor := by
  rw [Context.executor, Executor.block_eq_within]
  exact Executor.paired_within hS hsteps (fun _ => Nat.le_refl _) hlevels (Nat.lt_succ_of_le hroom)

theorem goes_program (hcaptures : ∀ tokens, Token.Terminated tokens → p tokens) (h : context.BodiesIn p)
    (hsteps : ∀ body, body.length ≤ steps body) (hlevels : context.room < levels) (text : String) :
    ContextM.Goes (ScopeStack.Same p) p 0 context.room (·.BodiesIn p)
      (evaluateWith (Executor.within steps levels) text context) (evaluate text context) :=
  goes_evaluateWith (Executor.paired_executor (ScopeStack.tandem_same hcaptures) hsteps hlevels (Nat.le_refl _))
    hcaptures text h.abreast

theorem goes_call (hcaptures : ∀ tokens, Token.Terminated tokens → p tokens) (h : context.BodiesIn p)
    (hsteps : ∀ body, body.length ≤ steps body) (hlevels : context.room ≤ levels) (function : Function)
    (items : List Item) (hbody : p function.body) (hitems : ∀ item ∈ items, item.BodiesIn p) :
    ContextM.Goes (ScopeStack.Same p) p 0 context.room (·.item.BodiesIn p)
      (function.invoke (Executor.within steps levels) items context)
      (function.invoke context.executor items context) := by
  refine goes_invoke (fun s hs => ?_) hbody hitems h.abreast
  exact Executor.paired_executor (ScopeStack.tandem_same hcaptures) hsteps (Nat.lt_of_lt_of_le hs hlevels)
    (Nat.le_of_lt hs)

theorem goes_operation {α : Type} (hcaptures : ∀ tokens, Token.Terminated tokens → p tokens) (h : context.BodiesIn p)
    (hsteps : ∀ body, body.length ≤ steps body) (hlevels : context.room ≤ levels) {cursor : Cursor}
    (hend : cursor.Terminated) {own : Nat} (hown : cursor.rest.length < own) (operation : Operation α) :
    WalkM.Goes (Abreast (ScopeStack.Same p) p 0 context.room) p (cursor.rest.length + 1) (operation.Result p)
      (operation.run (Executor.within steps levels) own ⟨cursor, context⟩)
      (operation.run context.executor (cursor.rest.length + 1) ⟨cursor, context⟩) := by
  have hS : Tandem (ScopeStack.Same p) p := ScopeStack.tandem_same hcaptures
  have hcouples : ∀ k, (Executor.within steps levels).Couples context.executor
      (Abreast (ScopeStack.Same p) p k context.room) p := by
    refine fun k => couples_of_paired hS (Executor.steady_within steps levels) fun s hs => ?_
    exact Executor.paired_executor hS hsteps (Nat.lt_of_lt_of_le hs hlevels) (Nat.le_of_lt hs)
  exact operation.coupled_run hS hcouples (ScopeStack.declares_same 0) hown (Nat.le_refl _) _ (Nat.le_refl _)
    cursor context context ⟨hend, Nat.lt_succ_self _⟩ h.abreast

end GradualScript
