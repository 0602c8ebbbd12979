import GradualScript.Context

/-!
# Calls of functions

* `Outcome` : how a list of statements ends;
* `Executor` : runs the body of a function, given the bindings of its parameters;
* `CallResult` : what a call gives;
* `Function.invoke` : a call with its checks: the number of arguments, their types, the depth of calls, and the
  type of the result.
-/

set_option autoImplicit false

namespace GradualScript

/-- How statements end. -/
inductive Outcome where
  /-- They ran to the end; the last of them had this value. -/
  | completed (item : Item)
  /-- They were left through `return`. -/
  | returned (item : Item)

def Outcome.item : Outcome → Item
  | completed item => item
  | returned item => item

/-- Runs tokens as statements, with bindings that only they see. -/
abbrev Executor := List Token → List Binding → ContextM Outcome

/-- What a call gives: a value, or nothing if the function ended without `return`. -/
inductive CallResult where
  | value (item : Item)
  | void

namespace CallResult

def item : CallResult → Item
  | value item => item
  | void => .unit

def isVoid : CallResult → Bool
  | value _ => false
  | void => true

end CallResult

/-- The binding of a parameter to an argument. -/
def Parameter.bind (parameter : Parameter) (item : Item) : Binding where
  name := parameter.name
  isMutable := true
  types := .ofDeclared parameter.type
  item := item

namespace Function

/-- The first argument that its parameter does not accept. -/
def mismatch? : List Parameter → List Item → Option ErrorKind
  | parameter :: parameters, item :: items =>
    if parameter.type.accepts item.tag then mismatch? parameters items
    else some (.typeMismatch parameter.type.name item.tag.name)
  | _, _ => none

/-- What is wrong with the arguments of a call. -/
def refusal? (function : Function) (arguments : List Item) : Option ErrorKind :=
  if arguments.length < function.arity then some (.missingArguments function.arity arguments.length)
  else if function.arity < arguments.length then some (.excessArguments function.arity arguments.length)
  else mismatch? function.parameters arguments

/-- What a call gives when its body ended in some way. -/
def conclude (function : Function) : Outcome → Except ErrorKind CallResult
  | .returned item =>
    if function.returns item.tag then .ok (.value item)
    else .error (.typeMismatch function.returnTypes.name item.tag.name)
  | .completed _ => if function.returns .unit then .ok .void else .error .missingReturn

/-- An error inside the body of a function, counted in the lines around the function. -/
def rebase (function : Function) : Failure → Failure
  | .error error => .error (error.rebase function.startLine)
  | .fault fault => .fault fault

/-- Runs the body of a function with its parameters bound, one call deeper. -/
def runBody (executor : Executor) (function : Function) (arguments : List Item) : ContextM Outcome :=
  ContextM.inCall function.startLine fun context =>
    match executor function.body (List.zipWith Parameter.bind function.parameters arguments) context with
    | .ok outcome after => .ok outcome after
    | .error failure after => .error (function.rebase failure) after

/-- Calls a function. What is wrong with the call itself is reported at the line where the function starts. -/
def invoke (executor : Executor) (function : Function) (arguments : List Item) : ContextM CallResult := do
  match function.refusal? arguments with
  | some kind => ContextM.fail (kind.at function.startLine)
  | none =>
    match function.conclude (← runBody executor function arguments) with
    | .ok result => return result
    | .error kind => ContextM.fail (kind.at function.startLine)

end Function

end GradualScript
