import GradualScript.Value.TypeTag

/-!
# Operators

* `Operator` : the operators, `Operator.symbol` and `Operator.ofSymbol?` how they are written;
* `Priority`, `Operator.priority`, `Operator.isLeftAssociative` : how tightly they bind, and to which side;
* `TypeTag.operations` : the binary operators that a type takes part in.
-/

set_option autoImplicit false

namespace GradualScript

inductive Operator where
  | power
  | plus
  | minus
  | not
  | mul
  | div
  | mod
  | add
  | sub
  | less
  | lessEq
  | greater
  | greaterEq
  | equal
  | notEqual
  | and
  | xor
  | or
deriving DecidableEq

/-- How tightly an operator binds, from the loosest on. -/
inductive Priority where
  | or
  | xor
  | and
  | relational
  | additive
  | multiplicative
  | unary
  | power
deriving DecidableEq

/-- The height of a priority. -/
def Priority.level : Priority → Nat
  | or => 0
  | xor => 1
  | and => 2
  | relational => 3
  | additive => 4
  | multiplicative => 5
  | unary => 6
  | power => 7

namespace Operator

def all : List Operator :=
  [ power, plus, minus, not, mul, div, mod, add, sub, less, lessEq, greater, greaterEq, equal, notEqual, and, xor,
    or ]

/-- How an operator is written. The unary signs are told from the binary ones by a dollar. -/
def symbol : Operator → String
  | power => "**"
  | plus => "$+"
  | minus => "$-"
  | not => "!"
  | mul => "*"
  | div => "/"
  | mod => "%"
  | add => "+"
  | sub => "-"
  | less => "<"
  | lessEq => "<="
  | greater => ">"
  | greaterEq => ">="
  | equal => "=="
  | notEqual => "!="
  | and => "&&"
  | xor => "^"
  | or => "||"

/-- The operator of a symbol. -/
def ofSymbol? (symbol : String) : Option Operator :=
  all.find? (·.symbol = symbol)

@[simp] theorem ofSymbol?_symbol (op : Operator) : ofSymbol? op.symbol = some op := by
  cases op <;> decide

def priority : Operator → Priority
  | power => .power
  | plus | minus | not => .unary
  | mul | div | mod => .multiplicative
  | add | sub => .additive
  | less | lessEq | greater | greaterEq | equal | notEqual => .relational
  | and => .and
  | xor => .xor
  | or => .or

/-- Of two such operators of one priority the left one is applied first. -/
def isLeftAssociative (op : Operator) : Bool :=
  op ≠ power

def isUnary : Operator → Bool
  | plus | minus | not => true
  | _ => false

def arithmetic : List Operator :=
  [add, sub, mul, div, mod, power]

def comparisons : List Operator :=
  [less, lessEq, greater, greaterEq, equal, notEqual]

def isComparison (op : Operator) : Bool :=
  comparisons.contains op

end Operator

/-- The binary operators that values of a type take part in. -/
def TypeTag.operations : TypeTag → List Operator
  | int | float => Operator.arithmetic ++ Operator.comparisons
  | bool => [.and, .or, .xor, .equal, .notEqual]
  | string => .add :: Operator.comparisons
  | char => .add :: .sub :: Operator.comparisons
  | function | unit | object _ => []

end GradualScript
