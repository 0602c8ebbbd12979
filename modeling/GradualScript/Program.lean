import GradualScript.Token.Lexer
import GradualScript.Walk.Statement

/-!
# Programs

* `Executor.block` : the executor of the language, which runs a body in a scope of its own;
* `evaluateWith`, `evaluate` : the value of a program.
-/

set_option autoImplicit false

namespace GradualScript

/-- Runs a body as statements in a new scope that holds the bindings. Calls in the body may be nested `levels - 1`
deep; the limit of the context stops them before. -/
def Executor.block : Nat → Executor
  | 0, _, _ => ContextM.fault .outOfSteps
  | levels + 1, body, bindings => ContextM.inScope do
    ContextM.declareAll 0 bindings
    match Cursor.ofTokens? body with
    | some cursor => ContextM.walk cursor (WalkM.statements (block levels))
    | none => ContextM.fault .unterminatedTokens

/-- The executor of the language with as many levels as the limit of the context lets calls nest. -/
def Context.executor (context : Context) : Executor :=
  Executor.block (context.config.maxCallDepth - context.callDepth + 1)

/-- The value of a program whose statements are run by an executor. -/
def evaluateWith (executor : Executor) (text : String) : ContextM Item := do
  match (Source.ofText text).tokenize with
  | .ok tokens => return (← executor tokens []).item
  | .error error => ContextM.fail error

/-- The value of a program. -/
def evaluate (text : String) : ContextM Item := do
  evaluateWith (← get).executor text

end GradualScript
