/-!
# Types of values

* `TypeTag` : the type of a value, `TypeTag.ofName?` and `TypeTag.name` its name in a program;
* `DeclaredType` : the type written at a parameter, which may be `Any`.
-/

set_option autoImplicit false

namespace GradualScript

/-- The type of a value. -/
inductive TypeTag where
  | int
  | float
  | bool
  | string
  | char
  | function
  | unit
  /-- The objects of a class. A class may bear the name of another type and is still told apart from it. -/
  | object (className : String)
deriving DecidableEq

namespace TypeTag

/-- The type of a name. `Any` names no type, and a name that is not taken names a class. -/
def ofName? (name : String) : Option TypeTag :=
  if name = "Any" then none
  else if name = "Int" then some int
  else if name = "Float" then some float
  else if name = "Bool" then some bool
  else if name = "String" then some string
  else if name = "Char" then some char
  else if name = "Function" then some function
  else if name = "Unit" then some unit
  else some (object name)

def name : TypeTag → String
  | int => "Int"
  | float => "Float"
  | bool => "Bool"
  | string => "String"
  | char => "Char"
  | function => "Function"
  | unit => "Unit"
  | object className => className

def isNumber : TypeTag → Bool
  | int | float => true
  | _ => false

/-- The place of a type in the order of types; classes come last. -/
def rank : TypeTag → Nat
  | int => 0
  | float => 1
  | bool => 2
  | string => 3
  | char => 4
  | function => 5
  | unit => 6
  | object _ => 7

/-- The order of types: by rank, and classes by name. -/
def before (s t : TypeTag) : Bool :=
  match s, t with
  | object c, object d => c < d
  | s, t => s.rank < t.rank

end TypeTag

/-- A type as it is declared. -/
inductive DeclaredType where
  | any
  | exact (tag : TypeTag)
deriving DecidableEq

namespace DeclaredType

/-- The declared type of a name. -/
def ofName (name : String) : DeclaredType :=
  match TypeTag.ofName? name with
  | none => any
  | some tag => exact tag

/-- A value of this type may stand where the declared type is asked for. -/
def accepts : DeclaredType → TypeTag → Bool
  | any, _ => true
  | exact declared, tag => declared = tag

def name : DeclaredType → String
  | any => "Any"
  | exact tag => tag.name

end DeclaredType

end GradualScript
