import GradualScript.Operator.Basic
import GradualScript.Value.Item

/-!
# Expressions

* `Element` : what stands in an expression as it is written, in infix order;
* `Expression` : elements and the line that they start on.
-/

set_option autoImplicit false

namespace GradualScript

/-- One entry of an expression. Names, calls and the like have been replaced by their values. -/
inductive Element where
  | value (item : Item)
  | operator (op : Operator)
  | openParen
  | closeParen

/-- An expression in infix order. What goes wrong in it is reported at its line. -/
structure Expression where
  elements : List Element
  line : Nat

def Expression.isEmpty (expression : Expression) : Bool :=
  expression.elements.isEmpty

end GradualScript
