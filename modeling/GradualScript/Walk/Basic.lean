import GradualScript.Context
import GradualScript.Cursor.Reading
import GradualScript.Expression.Calculate

/-!
# Walks

Expressions are evaluated while their tokens are read.

* `Walk` : a cursor and a context;
* `WalkM` : computations on both, `WalkM.ofCursor` and `WalkM.ofContext` those on one of them.
-/

set_option autoImplicit false

namespace GradualScript

/-- Tokens that are being read and evaluated in a context. -/
structure Walk where
  cursor : Cursor
  context : Context

/-- A computation that reads tokens and evaluates them. When it fails, cursor and context stay as they were
reached. -/
abbrev WalkM := EStateM Failure Walk

namespace WalkM

/-- Reads tokens and leaves the context alone. -/
def ofCursor {α : Type} (reading : CursorM α) : WalkM α := fun walk =>
  match reading walk.cursor with
  | .ok a cursor => .ok a { walk with cursor }
  | .error failure cursor => .error failure { walk with cursor }

/-- Works in the context and leaves the cursor alone. -/
def ofContext {α : Type} (action : ContextM α) : WalkM α := fun walk =>
  match action walk.context with
  | .ok a context => .ok a { walk with context }
  | .error failure context => .error failure { walk with context }

instance : MonadLift CursorM WalkM := ⟨ofCursor⟩

instance : MonadLift ContextM WalkM := ⟨ofContext⟩

/-- Fails with an error of the program. -/
def fail {α : Type} (error : Error) : WalkM α :=
  throw (.error error)

/-- Fails with an error at the line of the current token. -/
def failHere {α : Type} (kind : ErrorKind) : WalkM α :=
  ofCursor (CursorM.fail kind)

/-- The value of an expression that has been read. -/
def calculate (expression : Expression) : WalkM Item :=
  match expression.calculate with
  | .ok item => pure item
  | .error error => fail error

/-- Runs a walk in a new scope, which is dropped whether the walk succeeds or fails. -/
def inScope {α : Type} (body : WalkM α) : WalkM α := fun walk =>
  match body { walk with context.scopes := walk.context.scopes.push } with
  | .ok a after => (do ofContext ContextM.popScope; return a : WalkM α) after
  | .error failure after => (do ofContext ContextM.popScope; throw failure : WalkM α) after

/-- Runs a loop that is given one step more than there are tokens to come. -/
def bounded {α : Type} (loop : Nat → WalkM α) : WalkM α := do
  loop ((← get).cursor.rest.length + 1)

/-- The loop has no step left. -/
def outOfSteps {α : Type} : WalkM α :=
  throw (.fault .outOfSteps)

end WalkM

/-- Walks over tokens in a context. -/
def ContextM.walk {α : Type} (cursor : Cursor) (body : WalkM α) : ContextM α := fun context =>
  match body ⟨cursor, context⟩ with
  | .ok a after => .ok a after.context
  | .error failure after => .error failure after.context

end GradualScript
