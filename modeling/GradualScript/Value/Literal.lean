import GradualScript.Error.Basic
import GradualScript.Value.Item

/-!
# Literals

* `Item.ofLiteral` : the value that a literal token spells out.
-/

set_option autoImplicit false

namespace GradualScript

/-- The value of a literal token. A character literal holds exactly one character. -/
def Item.ofLiteral (token : Token) : Except ErrorKind Item :=
  match token.kind with
  | .int =>
    match Decimal.int? token.text.toList with
    | some value => .ok (.int value)
    | none => .error (.malformedNumber token.text)
  | .float =>
    match Decimal.float? token.text.toList with
    | some value => .ok (.float value)
    | none => .error (.malformedNumber token.text)
  | .bool => .ok (.bool (token.text = "true"))
  | .string => .ok (.string token.text)
  | .char =>
    match token.text.toList with
    | [c] => .ok (.char c)
    | _ => .error (.unexpectedToken token.text)
  | _ => .error (.unexpectedToken token.text)

end GradualScript
