import GradualScript.Error.Basic
import GradualScript.Operator.Basic
import GradualScript.Value.Item

/-!
# Applying operators

* `Operator.apply` : a binary operator on two values;
* `Operator.applyUnary` : an operator on one value;
* `applyInt`, `applyFloat`, `applyBool`, `applyString`, `applyChar` : the operators on two values of one type.
-/

set_option autoImplicit false

namespace GradualScript.Operator

/-! ## Comparisons -/

/-- A comparison holds between two values. -/
def holds {α : Type} [BEq α] [LT α] [LE α] [DecidableLT α] [DecidableLE α] (op : Operator) (x y : α) : Bool :=
  match op with
  | less => x < y
  | lessEq => x ≤ y
  | greater => y < x
  | greaterEq => y ≤ x
  | equal => x == y
  | _ => x != y

/-! ## One type -/

/-- The error of an operator that values of a type do not take part in. -/
def undefinedFor (op : Operator) (tag : TypeTag) : ErrorKind :=
  .undefinedOperation op.symbol tag.name

/-- A result that is in range, or the overflow of an operation. -/
def orOverflow (operation : String) : Option Int64 → Except ErrorKind Item
  | some value => .ok (.int value)
  | none => .error (.runtime ("integer overflow in " ++ operation))

/-- Operators on integers, which are exact or fail. -/
def applyInt (op : Operator) (x y : Int64) : Except ErrorKind Item :=
  if (op = div || op = mod) && y = 0 then .error .zeroDivision
  else if op.isComparison then .ok (.bool (op.holds x y))
  else
    match op with
    | add => orOverflow "addition" (Integer.add? x y)
    | sub => orOverflow "subtraction" (Integer.sub? x y)
    | mul => orOverflow "multiplication" (Integer.mul? x y)
    | div => orOverflow "division" (Integer.div? x y)
    | mod => orOverflow "remainder" (Integer.mod? x y)
    | power =>
      if 0 ≤ y.toInt ∧ y.toInt < 0x100000000 then orOverflow "exponentiation" (Integer.power? x y.toInt.toNat)
      else .error (.runtime ("Int cannot be raised to negative power " ++ toString y.toInt))
    | op => .error (op.undefinedFor .int)

/-- Operators on floats. -/
def applyFloat (op : Operator) (x y : Float) : Except ErrorKind Item :=
  if (op = div || op = mod) && y == 0 then .error .zeroDivision
  else if op.isComparison then .ok (.bool (op.holds x y))
  else
    match op with
    | add => .ok (.float (x + y))
    | sub => .ok (.float (x - y))
    | mul => .ok (.float (x * y))
    | div => .ok (.float (x / y))
    | mod => .ok (.float (Binary64.remainder x y))
    | power => .ok (.float (Float.pow x y))
    | op => .error (op.undefinedFor .float)

/-- Operators on truth values, of which true is the greater one. Only the table of operations keeps the comparisons that
order them from being applied. -/
def applyBool (op : Operator) (x y : Bool) : Except ErrorKind Item :=
  if op.isComparison then .ok (.bool (op.holds x y))
  else
    match op with
    | and => .ok (.bool (x && y))
    | or => .ok (.bool (x || y))
    | xor => .ok (.bool (x ^^ y))
    | op => .error (op.undefinedFor .bool)

/-- Strings compare character by character. -/
def applyString (op : Operator) (x y : String) : Except ErrorKind Item :=
  if op.isComparison then .ok (.bool (op.holds x y))
  else
    match op with
    | add => .ok (.string (x ++ y))
    | op => .error (op.undefinedFor .string)

/-- The character of a code point, if it is one. -/
def charOf? (code : Nat) : Option Char :=
  if code.isValidChar then some (Char.ofNat code) else none

/-- Characters are added and subtracted by their code points. -/
def applyChar (op : Operator) (x y : Char) : Except ErrorKind Item :=
  if op.isComparison then .ok (.bool (op.holds x y))
  else
    let code? : Option Char :=
      match op with
      | add => charOf? (x.toNat + y.toNat)
      | sub => if y.toNat ≤ x.toNat then charOf? (x.toNat - y.toNat) else none
      | _ => none
    match code? with
    | some c => .ok (.char c)
    | none => .error (op.undefinedFor .char)

/-! ## Two types -/

/-- The longest string, in bytes, that repetition may make. -/
def maxRepetition : Nat := 0x1000000

/-- A string written `count` times over. -/
def repetition (text : String) (count : Nat) : String :=
  if text.isEmpty then "" else Nat.repeat (· ++ text) count ""

def repeated (text : String) (count : Int64) : Except ErrorKind Item :=
  if count.toInt < 0 then
    .error (.unfitOperands mul.symbol ("String and negative Int " ++ toString count.toInt))
  else if text.utf8ByteSize * count.toInt.toNat ≤ maxRepetition then
    .ok (.string (repetition text count.toInt.toNat))
  else
    .error (.runtime ("string repetition by " ++ toString count.toInt ++ " exceeds " ++ toString maxRepetition ++
      " bytes"))

/-- Two types may meet at an operator: equal ones, two numbers, a string and its number of repetitions, or a
character and a string to be joined. -/
def admits (op : Operator) (left right : TypeTag) : Bool :=
  left = right || (left.isNumber && right.isNumber) ||
    match op, left, right with
    | mul, .string, .int | mul, .int, .string => true
    | add, .char, .string | add, .string, .char => true
    | _, _, _ => false

/-- The type whose operators decide: a float makes a float of the other number. -/
def category (left right : TypeTag) : TypeTag :=
  if left.isNumber && (left = .float || right = .float) then .float else left

/-- Applies an operator of the category of its operands. -/
def applyCategory (op : Operator) (left right : Item) : Except ErrorKind Item :=
  if !(category left.tag right.tag).operations.contains op then
    .error (op.undefinedFor (category left.tag right.tag))
  else
    match left, right with
    | .int x, .int y => op.applyInt x y
    | .float x, .float y => op.applyFloat x y
    | .int x, .float y => op.applyFloat x.toFloat y
    | .float x, .int y => op.applyFloat x y.toFloat
    | .bool x, .bool y => op.applyBool x y
    | .string x, .string y => op.applyString x y
    | .char x, .char y => op.applyChar x y
    | left, _ => .error (op.undefinedFor left.tag)

/-- Applies a binary operator to its left and its right operand. -/
def apply (op : Operator) (left right : Item) : Except ErrorKind Item :=
  if !op.admits left.tag right.tag then .error (.typeMismatch left.tag.name right.tag.name)
  else
    match op, left, right with
    | mul, .string text, .int count | mul, .int count, .string text => repeated text count
    | add, .char c, .string text => .ok (.string (String.ofList [c] ++ text))
    | add, .string text, .char c => .ok (.string (text.push c))
    | op, left, right => op.applyCategory left right

/-! ## One operand -/

/-- Applies an operator to a single operand. A binary operator is told what it lacks only if the operand is one
that unary operators take. -/
def applyUnary (op : Operator) (operand : Item) : Except ErrorKind Item :=
  match operand with
  | .int x =>
    match op with
    | plus => .ok (.int x)
    | minus => orOverflow "negation" (Integer.neg? x)
    | not => .ok (.int (if x = 0 then 1 else 0))
    | op => .error (.missingOperand op.symbol)
  | .float x =>
    match op with
    | plus => .ok (.float x)
    | minus => .ok (.float (-x))
    | not => .ok (.float (if x == 0 then 1 else 0))
    | op => .error (.missingOperand op.symbol)
  | .bool x =>
    match op with
    | not => .ok (.bool !x)
    | plus | minus => .error (.unfitOperands op.symbol operand.tag.name)
    | op => .error (.missingOperand op.symbol)
  | operand => .error (.unfitOperands op.symbol operand.tag.name)

end GradualScript.Operator
