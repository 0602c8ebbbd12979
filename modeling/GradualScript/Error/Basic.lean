import GradualScript.Text.Quoted

/-!
# Errors of a program

* `ErrorKind` : what went wrong, with a `name`, a `message` and possibly a `tip`;
* `Error` : a kind at a line;
* `Fault`, `Failure` : a broken invariant is no error of the program and is kept apart from one.
-/

set_option autoImplicit false

namespace GradualScript

open Text (quote)

/-- What can go wrong in a program. -/
inductive ErrorKind where
  | unrecognisedToken (token : String)
  | malformedNumber (token : String)
  | unexpectedToken (token : String)
  | undefinedName (name : String)
  | notCallable (name : String)
  | typeMismatch (expected received : String)
  | undefinedOperation (operator operand : String)
  | unfitOperands (operator operand : String)
  | missingOperand (operator : String)
  | zeroDivision
  | runtime (message : String)
  | redefinition (name : String)
  | constantAssignment (name : String)
  | missingArguments (expected received : Nat)
  | excessArguments (expected received : Nat)
  | missingReturn
  | unsupported (feature : String)
deriving DecidableEq

namespace ErrorKind

/-- The name of an error, which heads its report. -/
def name : ErrorKind → String
  | unrecognisedToken _ => "UnrecognisedToken"
  | malformedNumber _ => "NumberParseError"
  | unexpectedToken _ => "SyntaxError"
  | undefinedName _ => "UndefinedNameUsage"
  | notCallable _ => "CallError"
  | typeMismatch _ _ => "TypeError"
  | undefinedOperation _ _ => "OperandTypeError"
  | unfitOperands _ _ => "IncorrectOperationArguments"
  | missingOperand _ => "OperationArgumentExcess"
  | zeroDivision => "ZeroDivisionError"
  | runtime _ => "RuntimeError"
  | redefinition _ => "RedefinitionError"
  | constantAssignment _ => "ConstantAssignment"
  | missingArguments _ _ => "FunctionArgumentLack"
  | excessArguments _ _ => "FunctionArgumentExcess"
  | missingReturn => "EndOfFunction"
  | unsupported _ => "NotImplementedError"

/-- What went wrong, in one line. Tokens and names are quoted. -/
def message : ErrorKind → String
  | unrecognisedToken token => "unrecognised token: " ++ quote token
  | malformedNumber token => "error parsing number: " ++ quote token
  | unexpectedToken token => "syntax error near " ++ quote token
  | undefinedName name => "name " ++ quote name ++ " is not declared"
  | notCallable name => quote name ++ " is not callable"
  | typeMismatch expected received => "types do not match: expected " ++ expected ++ ", received " ++ received
  | undefinedOperation operator operand => "operator " ++ operator ++ " is not defined for " ++ operand
  | unfitOperands operator operand => "operator " ++ operator ++ " cannot be applied to " ++ operand
  | missingOperand operator => "operator " ++ operator ++ " is missing an operand"
  | zeroDivision => "division by zero"
  | runtime message => "runtime error: " ++ message
  | redefinition name => quote name ++ " already declared"
  | constantAssignment name => "cannot assign to constant " ++ quote name
  | missingArguments expected received =>
    "missing arguments: expected " ++ toString expected ++ ", received " ++ toString received
  | excessArguments expected received =>
    "unexpected arguments: expected " ++ toString expected ++ ", received " ++ toString received
  | missingReturn => "function ended without returning a value"
  | unsupported feature => "not implemented: " ++ feature

/-- Advice on the error, where there is any. Tokens and names are shown as they are. -/
def tip : ErrorKind → Option String
  | unrecognisedToken _ => none
  | malformedNumber token => some ("Invalid number: `" ++ token ++ "`, is it above the integer limit?")
  | unexpectedToken token => some ("Unexpected token: `" ++ token ++ "`, did you miss an operator?")
  | undefinedName name => some ("Name `" ++ name ++ "` is not declared")
  | notCallable name => some ("`" ++ name ++ "` cannot be called here")
  | typeMismatch expected received => some ("Expected type `" ++ expected ++ "`, received `" ++ received ++ "`")
  | undefinedOperation operator operand => some ("Operator `" ++ operator ++ "` is not defined for `" ++ operand ++ "`")
  | unfitOperands operator operand => some ("Operator `" ++ operator ++ "` cannot be applied to `" ++ operand ++ "`")
  | missingOperand operator => some ("Operator `" ++ operator ++ "` needs two operands")
  | zeroDivision => some "Division by zero"
  | runtime message => some message
  | redefinition name => some ("`" ++ name ++ "` is already declared in this scope")
  | constantAssignment name => some ("`" ++ name ++ "` is a constant")
  | missingArguments expected received
  | excessArguments expected received =>
    some ("Expected " ++ toString expected ++ " arguments, received " ++ toString received)
  | missingReturn => none
  | unsupported feature => some (feature ++ " is expected to be handled, but has not yet been implemented")

end ErrorKind

/-- An error at a zero-based line. Lines are natural numbers here, as everywhere: that a text or a chain of calls could
bring one past 32 bits is left out. -/
structure Error where
  kind : ErrorKind
  line : Nat
deriving DecidableEq

/-- The error placed at a line. -/
def ErrorKind.at (kind : ErrorKind) (line : Nat) : Error := ⟨kind, line⟩

namespace Error

/-- The message with the line counted from one. -/
def message (error : Error) : String :=
  error.kind.message ++ " at line " ++ toString (error.line + 1)

/-- The error moved down by `offset` lines, as it leaves a function body that starts there. The sum is exact, without a
bound of 32 bits. -/
def rebase (error : Error) (offset : Nat) : Error :=
  { error with line := error.line + offset }

end Error

/-- A broken invariant. -/
inductive Fault where
  /-- The global scope was to be dropped. -/
  | globalScopeDropped
  /-- A name that was taken for declared has no binding. -/
  | unboundName (name : String)
  /-- A value was to be stored under a name without a binding. -/
  | unboundTarget (name : String)
  /-- A token list does not end with the end of input. -/
  | unterminatedTokens
  /-- A recursion was given fewer steps than it needs. -/
  | outOfSteps
deriving DecidableEq

/-- The text of a broken invariant. -/
def Fault.message : Fault → String
  | globalScopeDropped => "attempted to pop the global scope"
  | unboundName name => "binding `" ++ name ++ "` vanished after it was resolved"
  | unboundTarget name => "assignment to `" ++ name ++ "` which was never declared"
  | unterminatedTokens => "token stream must end with EOF"
  | outOfSteps => "out of steps"

/-- How a computation can fail: through an error of the program or through a broken invariant. -/
inductive Failure where
  | error (error : Error)
  | fault (fault : Fault)
deriving DecidableEq

end GradualScript
