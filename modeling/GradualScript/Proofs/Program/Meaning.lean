import GradualScript.Call
import GradualScript.Proofs.Program.Tree
import GradualScript.Value.Literal

/-!
# What programs mean

The meaning of a tree, by recursion on it and without tokens.

* `Effect` : computations on scopes, which an error ends;
* `Term.resolve`, `Phrase.resolve` : an expression with its names, calls, assignments and ternaries replaced by their
  values, from left to right;
* `Phrase.value` : the value of an expression, whose operators are applied when all of it is resolved;
* `Statement.run`, `Block.run` : statements in order, up to the first `return` or error;
* `Block.execute` : a program, which has a scope of its own.
-/

set_option autoImplicit false

namespace GradualScript

namespace ScopeStack

/-- The scopes with a value stored under a name; they stay the same if the name is not bound. -/
def store (stack : ScopeStack) (name : String) (item : Item) : ScopeStack :=
  match stack.assign name item with
  | .ok changed => changed
  | .error _ => stack

/-- The scopes around the innermost one; the global one stays. -/
def leave (stack : ScopeStack) : ScopeStack :=
  match stack.pop with
  | .ok outer => outer
  | .error _ => stack

end ScopeStack

/-- A computation on scopes. An error leaves the scopes as they were reached. -/
abbrev Effect := EStateM ErrorKind ScopeStack

namespace Effect

variable {α : Type}

def ofExcept : Except ErrorKind α → Effect α
  | .ok a => pure a
  | .error kind => throw kind

/-- The computation in a new scope, which is left on every way out. -/
def inScope (body : Effect α) : Effect α := fun scopes =>
  match body scopes.push with
  | .ok a after => .ok a after.leave
  | .error kind after => .error kind after.leave

/-- The value of a name. -/
def lookUp (registry : Registry) (name : String) : Effect Item := do
  match (← get).lookup? name with
  | some binding => return binding.item
  | none =>
    if registry.hasFunction name || registry.hasClass name then throw (.notCallable name)
    else throw (.undefinedName name)

/-- Stores a value in a variable. Whether there is such a variable is known before the value is. -/
def assign (name : String) (value : Effect Item) : Effect Item := do
  match (← get).lookup? name with
  | none => throw (.undefinedName name)
  | some binding =>
    if binding.isMutable then
      let item ← value
      modify (·.store name item)
      return item
    else throw (.constantAssignment name)

/-- One of two values. -/
def choose (positive negative : Effect Item) : Item → Effect Item
  | .bool true => positive
  | .bool false => negative
  | other => throw (.typeMismatch TypeTag.bool.name other.tag.name)

/-- The result of a function of the host. -/
def call (registry : Registry) (function : String) (items : List Item) : Effect Item :=
  match registry.function? function with
  | some host => ofExcept (host items)
  | none => throw (.notCallable function)

/-- Declares a name with a value that its type accepts. -/
def declare (isMutable : Bool) (name : String) (types : TypeSet) (item : Item) : Effect Unit := do
  if types.accepts item.tag then
    set (← ofExcept ((← get).declare { name, isMutable, types, item }))
  else throw (.typeMismatch types.name item.tag.name)

end Effect

/-- The value of a literal. -/
def Literal.value (literal : Literal) : Except ErrorKind Item :=
  Item.ofLiteral ⟨literal.kind, literal.text, .null⟩

/-- The value of what is resolved. -/
def Effect.valueOf (resolved : Effect OperatorTree) : Effect Item := do
  ofExcept (← resolved).eval

mutual

/-- A term with values in place of its names and calls, which are found from left to right. -/
def Term.resolve (registry : Registry) : Term → Effect OperatorTree
  | .literal literal => do return .value (← Effect.ofExcept literal.value)
  | .name name => do return .value (← Effect.lookUp registry name)
  | .call function arguments => do
    return .value (← Effect.call registry function (← argumentValues registry arguments))
  | .paren inner => do return .paren (← inner.resolve registry)
  | .unary op operand => do return .unary op (← operand.resolve registry)
  | .binary op left right => do
    let x ← left.resolve registry
    let y ← right.resolve registry
    return .binary op x y

/-- An expression; an assignment or a ternary becomes its value. -/
def Phrase.resolve (registry : Registry) : Phrase → Effect OperatorTree
  | .term term => term.resolve registry
  | .assignment name value => do return .value (← Effect.assign name (.valueOf (value.resolve registry)))
  | .ternary condition positive negative => do
    let item ← Effect.valueOf (condition.resolve registry)
    return .value (← Effect.choose (.valueOf (positive.resolve registry))
      (.valueOf (negative.resolve registry)) item)

/-- The values of arguments from left to right. -/
def argumentValues (registry : Registry) : List Phrase → Effect (List Item)
  | [] => return []
  | first :: rest => do
    let item ← Effect.valueOf (first.resolve registry)
    return item :: (← argumentValues registry rest)

end

/-- The value of an expression. -/
def Phrase.value (registry : Registry) (phrase : Phrase) : Effect Item :=
  .valueOf (phrase.resolve registry)

/-- The types of a declaration, by the name of a type if there is one. -/
def TypeSet.ofName? : Option String → TypeSet
  | some name => .ofDeclared (.ofName name)
  | none => .any

mutual

/-- A statement: a declaration evaluates its value and then declares its name, a block has a scope of its own. -/
def Statement.run (registry : Registry) : Statement → Effect Outcome
  | .declaration isMutable name type? value => do
    let item ← value.value registry
    Effect.declare isMutable name (.ofName? type?) item
    return .completed .unit
  | .exit (some value) => do return .returned (← value.value registry)
  | .exit none => return .returned .unit
  | .block body => Effect.inScope (body.run registry .unit)
  | .expression value => do return .completed (← value.value registry)

/-- Statements in order up to the first `return` or error, when the last one had the value `last`. -/
def Block.run (registry : Registry) : Block → Item → Effect Outcome
  | .nil, last => return .completed last
  | .cons statement _ rest, _ => do
    match ← statement.run registry with
    | .returned item => return .returned item
    | .completed item => rest.run registry item

end

/-- A program in a scope of its own. -/
def Block.execute (registry : Registry) (program : Block) : Effect Outcome :=
  .inScope (program.run registry .unit)

end GradualScript
