import GradualScript.Text.Extender
import GradualScript.Text.Printable

/-!
# Quoted text

* `Text.escape` : one character as it stands inside quotes;
* `Text.quote` : a text between double quotes, on one line and without characters that cannot be seen.
-/

set_option autoImplicit false

namespace GradualScript.Text

/-- A character by its code point, in lower-case hexadecimal digits without padding. -/
def escapeCode (c : Char) : List Char :=
  ['\\', 'u', '{'] ++ Nat.toDigits 16 c.toNat ++ ['}']

/-- A character inside quotes. The quote, the backslash and four controls have escapes of their own; a single
quote needs none. -/
def escape (c : Char) : List Char :=
  match c with
  | '\x00' => ['\\', '0']
  | '\t' => ['\\', 't']
  | '\r' => ['\\', 'r']
  | '\n' => ['\\', 'n']
  | '\\' => ['\\', '\\']
  | '"' => ['\\', '"']
  | c => if isExtender c || !isPrintable c then escapeCode c else [c]

/-- A text between double quotes. -/
def quote (text : String) : String :=
  String.ofList (['"'] ++ text.toList.flatMap escape ++ ['"'])

end GradualScript.Text
