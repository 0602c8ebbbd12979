import GradualScript.Scope

/-!
# Contexts

* `HostFunction`, `Registry` : what the host of a program provides under fixed names;
* `Context` : the scopes, the registry, the limits and the depth of calls;
* `NameKind`, `Context.nameKind` : what a name refers to;
* `ContextM` : computations in a context, `ContextM.inScope` and `ContextM.inCall` the two that nest.
-/

set_option autoImplicit false

namespace GradualScript

/-- A function of the host: it has no access to the context. -/
abbrev HostFunction := List Item → Except ErrorKind Item

/-- What a program can call without declaring it. A later registration of a name hides an earlier one. -/
structure Registry where
  functions : List (String × HostFunction)
  builtinClasses : List (String × HostFunction)
  userClasses : List (String × HostFunction)

namespace Registry

def empty : Registry := ⟨[], [], []⟩

instance : Inhabited Registry := ⟨empty⟩

def registerFunction (registry : Registry) (name : String) (function : HostFunction) : Registry :=
  { registry with functions := (name, function) :: registry.functions }

def registerBuiltinClass (registry : Registry) (name : String) (constructor : HostFunction) : Registry :=
  { registry with builtinClasses := (name, constructor) :: registry.builtinClasses }

def registerUserClass (registry : Registry) (name : String) (constructor : HostFunction) : Registry :=
  { registry with userClasses := (name, constructor) :: registry.userClasses }

def function? (registry : Registry) (name : String) : Option HostFunction :=
  registry.functions.lookup name

def hasFunction (registry : Registry) (name : String) : Bool :=
  (registry.function? name).isSome

/-- The constructor of a class. The user's classes hide built-in ones. -/
def constructor? (registry : Registry) (name : String) : Option HostFunction :=
  (registry.userClasses.lookup name).or (registry.builtinClasses.lookup name)

def hasClass (registry : Registry) (name : String) : Bool :=
  (registry.constructor? name).isSome

end Registry

/-- The limits of evaluation. -/
structure Config where
  /-- How many calls of functions may be inside each other. -/
  maxCallDepth : Nat
deriving DecidableEq

instance : Inhabited Config := ⟨⟨64⟩⟩

/-- What a program is evaluated in. -/
structure Context where
  scopes : ScopeStack
  registry : Registry
  config : Config
  /-- How many calls of functions are going on. -/
  callDepth : Nat
deriving Inhabited

/-- What a name refers to. -/
inductive NameKind where
  | value
  | function
  | constructor
  | undeclared
deriving DecidableEq

/-- A binding counts as a function when it holds one or when its types admit one. -/
def Binding.isCallable (binding : Binding) : Bool :=
  binding.item.tag = .function || binding.types.contains .function

/-- What a name refers to: a function of the host, else a binding, else a class. -/
def Context.nameKind (context : Context) (name : String) : NameKind :=
  if context.registry.hasFunction name then .function
  else
    match context.scopes.lookup? name with
    | some binding => if binding.isCallable then .function else .value
    | none => if context.registry.hasClass name then .constructor else .undeclared

/-- A computation in a context. When it fails, the context stays as it was reached. -/
abbrev ContextM := EStateM Failure Context

namespace ContextM

/-- Fails with an error of the program. -/
def fail {α : Type} (error : Error) : ContextM α :=
  throw (.error error)

/-- Fails with a broken invariant. -/
def fault {α : Type} (fault : Fault) : ContextM α :=
  throw (.fault fault)

/-- Declares a name; an error is placed at `line`. -/
def declare (binding : Binding) (line : Nat) : ContextM Unit := fun context =>
  match context.scopes.declare binding with
  | .ok scopes => .ok () { context with scopes }
  | .error kind => .error (.error (kind.at line)) context

/-- Declares names in order; an error is placed at `line`. -/
def declareAll (line : Nat) : List Binding → ContextM Unit
  | [] => pure ()
  | binding :: rest => do
    declare binding line
    declareAll line rest

/-- Stores a value under a name that is declared. -/
def assign (name : String) (item : Item) : ContextM Unit := fun context =>
  match context.scopes.assign name item with
  | .ok scopes => .ok () { context with scopes }
  | .error fault => .error (.fault fault) context

/-- Drops the innermost scope. -/
def popScope : ContextM Unit := fun context =>
  match context.scopes.pop with
  | .ok scopes => .ok () { context with scopes }
  | .error fault => .error (.fault fault) context

/-- Runs a computation in a new scope, which is dropped whether the computation succeeds or fails. -/
def inScope {α : Type} (body : ContextM α) : ContextM α := fun context =>
  match body { context with scopes := context.scopes.push } with
  | .ok a after => (do popScope; return a : ContextM α) after
  | .error failure after => (do popScope; throw failure : ContextM α) after

/-- Runs a computation one call deeper, if the limit allows; the depth is given back whether the computation
succeeds or fails. -/
def inCall {α : Type} (line : Nat) (body : ContextM α) : ContextM α := fun context =>
  if context.config.maxCallDepth ≤ context.callDepth then
    fail ⟨.runtime "maximum call depth exceeded", line⟩ context
  else
    match body { context with callDepth := context.callDepth + 1 } with
    | .ok a after => .ok a { after with callDepth := after.callDepth - 1 }
    | .error failure after => .error failure { after with callDepth := after.callDepth - 1 }

end ContextM

end GradualScript
