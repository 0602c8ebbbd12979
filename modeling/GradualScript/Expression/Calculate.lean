import GradualScript.Expression.Postfix
import GradualScript.Operator.Apply

/-!
# The value of an expression

* `Instruction.step`, `Instruction.run` : a stack machine for expressions in postfix order;
* `Expression.calculate` : the value of an expression.
-/

set_option autoImplicit false

namespace GradualScript

namespace Instruction

/-- Runs one instruction on a stack of values. The value pushed last is the right operand; a binary operator
that finds only one value is applied to that. -/
def step (stack : List Item) : Instruction → Except ErrorKind (List Item)
  | .push item => .ok (item :: stack)
  | .apply op =>
    match stack with
    | [] => .error (.runtime ("operator `" ++ op.symbol ++ "` has no operand"))
    | [operand] => do return [← op.applyUnary operand]
    | right :: left :: rest =>
      if op.isUnary then do return (← op.applyUnary right) :: left :: rest
      else do return (← op.apply left right) :: rest

/-- Runs instructions one after the other. -/
def run (stack : List Item) : List Instruction → Except ErrorKind (List Item)
  | [] => .ok stack
  | instruction :: rest => do run (← instruction.step stack) rest

/-- The one value that is left at the end. -/
def result : List Item → Except ErrorKind Item
  | [item] => .ok item
  | stack => .error (.runtime ("expression left " ++ toString stack.length ++ " values instead of one"))

end Instruction

namespace Expression

/-- The value of elements in infix order. -/
def value (elements : List Element) : Except ErrorKind Item := do
  Instruction.result (← Instruction.run [] (← Element.toPostfix elements))

/-- The value of an expression; an error is placed at its line. -/
def calculate (expression : Expression) : Except Error Item :=
  (value expression.elements).mapError (·.at expression.line)

end Expression

end GradualScript
