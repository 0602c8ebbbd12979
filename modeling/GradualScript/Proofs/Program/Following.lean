import GradualScript.Proofs.Program.Meaning
import GradualScript.Proofs.Run
import GradualScript.Walk.Basic

/-!
# Runs that follow a meaning

* `Context.withScopes` : a context with other scopes;
* `Fails` : a run that ends with an error;
* `Follows` : a run that fails as a meaning does, and has some property if the meaning has a result;
* `Gives` : the property is that the run has this result, with the same scopes and the cursor at a given place;
* `Gives.bind` : two such runs in a row.
-/

set_option autoImplicit false

namespace GradualScript

/-- The context with other scopes. -/
def Context.withScopes (context : Context) (scopes : ScopeStack) : Context :=
  { context with scopes }

variable {α β γ : Type}

/-- The run ends with an error of this kind, in this context. -/
def Fails (run : EStateM.Result Failure Walk β) (kind : ErrorKind) (context : Context) : Prop :=
  ∃ line cursor, run = .error (.error ⟨kind, line⟩) ⟨cursor, context⟩

theorem Fails.bind {m : WalkM β} {f : β → WalkM γ} {walk : Walk} {kind : ErrorKind} {context : Context}
    (h : Fails (m walk) kind context) : Fails ((m >>= f) walk) kind context := by
  obtain ⟨line, cursor, hrun⟩ := h
  exact ⟨line, cursor, bind_of_error hrun⟩

/-- The run fails if the meaning does, with the same error and the same scopes; else it has the property `goal` of
the result and the scopes of the meaning. -/
def Follows (context : Context) (meaning : EStateM.Result ErrorKind ScopeStack α)
    (run : EStateM.Result Failure Walk β) (goal : α → ScopeStack → Prop) : Prop :=
  match meaning with
  | .ok a scopes => goal a scopes
  | .error kind scopes => Fails run kind (context.withScopes scopes)

namespace Follows

variable {context : Context} {run : EStateM.Result Failure Walk β} {goal : α → ScopeStack → Prop}

theorem imp {meaning : EStateM.Result ErrorKind ScopeStack α} {other : EStateM.Result Failure Walk γ}
    {goal' : α → ScopeStack → Prop} (h : Follows context meaning run goal)
    (hfails : ∀ kind later, Fails run kind later → Fails other kind later)
    (hgoal : ∀ a scopes, goal a scopes → goal' a scopes) : Follows context meaning other goal' := by
  cases meaning with
  | ok a scopes => exact hgoal a scopes h
  | error kind scopes => exact hfails kind _ h

/-- The run follows two meanings in a row if it follows the first, and then the second. -/
theorem bind {M : Effect γ} {G : γ → Effect α} {scopes : ScopeStack}
    (h : Follows context (M scopes) run fun c later => Follows context (G c later) run goal) :
    Follows context ((M >>= G) scopes) run goal := by
  cases hM : M scopes with
  | ok c later =>
    rw [hM] at h
    rw [bind_of_ok hM]
    exact h
  | error kind later =>
    rw [hM] at h
    rw [bind_of_error hM]
    exact h

end Follows

/-- The run has the result of the meaning, ends in the same scopes and leaves the cursor at the given place. -/
def Gives (context : Context) (meaning : EStateM.Result ErrorKind ScopeStack α) (cursor : Cursor)
    (run : EStateM.Result Failure Walk α) : Prop :=
  Follows context meaning run fun a scopes => run = .ok a ⟨cursor, context.withScopes scopes⟩

namespace Gives

variable {context : Context} {cursor : Cursor} {scopes : ScopeStack} {walk : Walk}

theorem pure (a : α) : Gives context ((Pure.pure a : Effect α) scopes) cursor
    ((Pure.pure a : WalkM α) ⟨cursor, context.withScopes scopes⟩) :=
  rfl

/-- Two runs in a row give what two meanings in a row do. -/
theorem bind {M : Effect α} {G : α → Effect β} {m : WalkM α} {f : α → WalkM β} {last : Cursor}
    (h : Gives context (M scopes) cursor (m walk))
    (hf : ∀ a later, Gives context (G a later) last (f a ⟨cursor, context.withScopes later⟩)) :
    Gives context ((M >>= G) scopes) last ((m >>= f) walk) := by
  refine Follows.bind (h.imp (fun _ _ => Fails.bind) fun a later hrun => ?_)
  rw [bind_of_ok hrun]
  exact hf a later

/-- The result may be changed on both sides. -/
theorem map {M : Effect α} {m : WalkM α} {g : α → β} (h : Gives context (M scopes) cursor (m walk)) :
    Gives context ((do return g (← M) : Effect β) scopes) cursor ((do return g (← m) : WalkM β) walk) :=
  h.bind fun _ _ => rfl

end Gives

end GradualScript
