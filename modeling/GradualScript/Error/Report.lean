import GradualScript.Error.Basic
import GradualScript.Text.Blank

/-!
# Error reports

* `Text.physicalLine` : one line of a text, by its number;
* `Error.report` : an error over the line of the source that it is about.
-/

set_option autoImplicit false

namespace GradualScript

/-- The line with the zero-based number `n`, without its line break; empty past the last line. -/
def Text.physicalLine (cs : List Char) : Nat → List Char
  | 0 => cs.takeWhile (· ≠ '\n')
  | n + 1 => physicalLine ((cs.dropWhile (· ≠ '\n')).drop 1) n

namespace Error

/-- The first line of a report: the error's name, and its tip if it has one. -/
def headline (error : Error) : String :=
  match error.kind.tip with
  | none => "Error: " ++ error.kind.name
  | some tip => "Error: " ++ error.kind.name ++ " (" ++ tip ++ ")"

/-- The error over the source line that it is about, which is numbered from one and trimmed. -/
def report (error : Error) (source : String) : String :=
  let number := toString (error.line + 1)
  let line := Text.trim (Text.physicalLine source.toList error.line)
  error.headline ++ "\n" ++ String.ofList (List.replicate (number.length + 1) ' ') ++ "|\n" ++
    number ++ " | " ++ String.ofList line

end Error

end GradualScript
