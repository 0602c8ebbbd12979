import GradualScript.Error.Basic
import GradualScript.Expression.Basic

/-!
# Postfix order

* `Instruction` : what stands in an expression in postfix order, which needs no parentheses;
* `Postfix.convert` : infix elements in postfix order, with a stack of operators and parentheses that wait;
* `Element.toPostfix` : a whole expression in postfix order.
-/

set_option autoImplicit false

namespace GradualScript

/-- One entry of an expression in postfix order. -/
inductive Instruction where
  | push (item : Item)
  | apply (op : Operator)

namespace Postfix

/-- What waits for its right side to end. -/
inductive Pending where
  | operator (op : Operator)
  | paren
deriving DecidableEq

/-- An operator that waits is applied before the right side of the next one is read. -/
def precedes (waiting next : Operator) : Bool :=
  if next.isLeftAssociative then next.priority.level ≤ waiting.priority.level
  else next.priority.level < waiting.priority.level

/-- The operators on top of the stack that are applied before `next`, and the stack below them. -/
def release (next : Operator) : List Pending → List Instruction × List Pending
  | .operator op :: stack =>
    if precedes op next then (release next stack).map (.apply op :: ·) id else ([], .operator op :: stack)
  | stack => ([], stack)

/-- The operators down to the innermost parenthesis, and the stack below that. -/
def close? : List Pending → Option (List Instruction × List Pending)
  | [] => none
  | .paren :: stack => some ([], stack)
  | .operator op :: stack => (close? stack).map (Prod.map (.apply op :: ·) id)

/-- The operators of the whole stack, unless a parenthesis is open. -/
def finish? : List Pending → Option (List Instruction)
  | [] => some []
  | .paren :: _ => none
  | .operator op :: stack => (finish? stack).map (.apply op :: ·)

/-- The stack after an operator, and what it releases. A unary operator stands before its operand, so nothing on
its left is complete. -/
def enter (op : Operator) (stack : List Pending) : List Instruction × List Pending :=
  if op.isUnary then ([], .operator op :: stack) else (release op stack).map id (.operator op :: ·)

/-- The rest of an expression in postfix order, when `stack` waits. -/
def convert (stack : List Pending) : List Element → Except ErrorKind (List Instruction)
  | [] =>
    match finish? stack with
    | some instructions => .ok instructions
    | none => .error (.unexpectedToken "(")
  | .value item :: rest => do return .push item :: (← convert stack rest)
  | .openParen :: rest => convert (.paren :: stack) rest
  | .operator op :: rest => do return (enter op stack).1 ++ (← convert (enter op stack).2 rest)
  | .closeParen :: rest =>
    match close? stack with
    | some (instructions, below) => do return instructions ++ (← convert below rest)
    | none => .error (.unexpectedToken ")")

end Postfix

/-- An expression in postfix order. -/
def Element.toPostfix (elements : List Element) : Except ErrorKind (List Instruction) :=
  Postfix.convert [] elements

end GradualScript
