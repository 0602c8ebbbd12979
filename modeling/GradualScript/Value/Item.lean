import GradualScript.Number.Decimal
import GradualScript.Token.Basic
import GradualScript.Value.TypeSet

/-!
# Values

* `Parameter`, `Function` : a function is its parameters, the tokens of its body and the types it may return;
* `Item` : a value of the language, `Item.tag` its type;
* `Item.equal` : equality of values;
* `Item.text` : a value as it is shown.
-/

set_option autoImplicit false

namespace GradualScript

/-- A parameter of a function. -/
structure Parameter where
  name : String
  type : DeclaredType
deriving DecidableEq

/-- A function. Its body is run when it is called; lines inside the body count from `startLine`, a natural number
without a bound of 32 bits. -/
structure Function where
  parameters : List Parameter
  body : List Token
  returnTypes : TypeSet
  startLine : Nat
  /-- What tells the function from others. A function that is written in a program has no mark: no operator
  compares functions. -/
  mark : Option Nat
deriving DecidableEq

namespace Function

def arity (function : Function) : Nat :=
  function.parameters.length

/-- The function may return a value of this type. -/
def returns (function : Function) (tag : TypeTag) : Bool :=
  function.returnTypes.accepts tag

/-- The two are one function. -/
def same (f g : Function) : Bool :=
  f.mark.isSome && f.mark = g.mark

end Function

/-- A value. -/
inductive Item where
  | int (value : Int64)
  | float (value : Float)
  | bool (value : Bool)
  | char (value : Char)
  | string (value : String)
  | function (value : Function)
  | unit
  | object (className : String) (fields : List (String × Item))

instance : Inhabited Item := ⟨.unit⟩

namespace Item

/-- The type of a value. -/
def tag : Item → TypeTag
  | int _ => .int
  | float _ => .float
  | bool _ => .bool
  | char _ => .char
  | string _ => .string
  | function _ => .function
  | unit => .unit
  | object className _ => .object className

def isNumber (item : Item) : Bool :=
  item.tag.isNumber

/-- A value as it is shown. -/
def text : Item → String
  | int value => toString value.toInt
  | float value => Decimal.ofFloat value
  | bool value => if value then "true" else "false"
  | char value => String.ofList [value]
  | string value => value
  | function value => "<lambda/" ++ toString value.arity ++ ">"
  | unit => "()"
  | object className _ => "<" ++ className ++ ">"

/-! ## Equality -/

mutual

/-- Equality of values: floats compare as numbers, functions by identity and objects by class and fields. -/
def equal : Item → Item → Bool
  | int x, int y => x == y
  | float x, float y => x == y
  | bool x, bool y => x == y
  | char x, char y => x == y
  | string x, string y => x == y
  | function f, function g => f.same g
  | unit, unit => true
  | object c fields, object d others => c == d && fields.length == others.length && fieldsAmong fields others
  | _, _ => false

/-- Each of the fields has an equal one of its name among the others. -/
def fieldsAmong : List (String × Item) → List (String × Item) → Bool
  | [], _ => true
  | (name, item) :: rest, others =>
    (match others.lookup name with
      | some other => item.equal other
      | none => false) && fieldsAmong rest others

end

instance : BEq Item := ⟨equal⟩

end Item

end GradualScript
