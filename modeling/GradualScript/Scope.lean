import GradualScript.Error.Basic
import GradualScript.Value.Item

/-!
# Scopes

* `Binding` : a name bound to a value;
* `Scope` : the bindings of one block, `Scope.find?` and `Scope.assign?`;
* `ScopeStack` : the scopes around a point of a program, of which the global one is always there.
-/

set_option autoImplicit false

namespace GradualScript

/-- A name bound to a value: a variable, or a constant if it is not mutable. -/
structure Binding where
  name : String
  isMutable : Bool
  types : TypeSet
  item : Item

/-- The bindings of one block. -/
abbrev Scope := List Binding

namespace Scope

/-- The binding of a name. -/
def find? (scope : Scope) (name : String) : Option Binding :=
  List.find? (·.name = name) scope

/-- Stores a value in the binding of a name, if there is one. -/
def assign? (name : String) (item : Item) : Scope → Option Scope
  | [] => none
  | binding :: rest =>
    if binding.name = name then some ({ binding with item } :: rest)
    else (assign? name item rest).map (binding :: ·)

end Scope

/-- Scopes inside each other. -/
structure ScopeStack where
  innermost : Scope
  /-- The scopes around the innermost one, from the inside out. -/
  outer : List Scope

namespace ScopeStack

/-- An empty global scope. -/
def empty : ScopeStack := ⟨[], []⟩

instance : Inhabited ScopeStack := ⟨empty⟩

/-- All scopes from the inside out. -/
def toList (stack : ScopeStack) : List Scope :=
  stack.innermost :: stack.outer

def depth (stack : ScopeStack) : Nat :=
  stack.outer.length + 1

/-- Opens a scope inside the innermost one. -/
def push (stack : ScopeStack) : ScopeStack :=
  ⟨[], stack.toList⟩

/-- Drops the innermost scope with its bindings. -/
def pop (stack : ScopeStack) : Except Fault ScopeStack :=
  match stack.outer with
  | [] => .error .globalScopeDropped
  | scope :: outer => .ok ⟨scope, outer⟩

/-- Declares a name in the innermost scope. A name of an outer scope may be declared anew. -/
def declare (stack : ScopeStack) (binding : Binding) : Except ErrorKind ScopeStack :=
  if (stack.innermost.find? binding.name).isSome then .error (.redefinition binding.name)
  else .ok { stack with innermost := binding :: stack.innermost }

/-- The binding that a name stands for: that of the innermost scope which has one. -/
def lookup? (stack : ScopeStack) (name : String) : Option Binding :=
  stack.toList.findSome? (·.find? name)

def contains (stack : ScopeStack) (name : String) : Bool :=
  (stack.lookup? name).isSome

/-- The binding of a name that is known to be declared. -/
def get (stack : ScopeStack) (name : String) : Except Fault Binding :=
  match stack.lookup? name with
  | some binding => .ok binding
  | none => .error (.unboundName name)

/-- Stores a value in the first of the scopes that has the name. -/
def assignFirst? (name : String) (item : Item) : List Scope → Option (List Scope)
  | [] => none
  | scope :: outer =>
    match scope.assign? name item with
    | some changed => some (changed :: outer)
    | none => (assignFirst? name item outer).map (scope :: ·)

/-- Stores a value in the binding that a name stands for. -/
def assign (stack : ScopeStack) (name : String) (item : Item) : Except Fault ScopeStack :=
  match assignFirst? name item stack.toList with
  | some (innermost :: outer) => .ok ⟨innermost, outer⟩
  | _ => .error (.unboundTarget name)

end ScopeStack

end GradualScript
