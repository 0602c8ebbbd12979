import GradualScript.Error.Report
import GradualScript.Program
import GradualScript.Proofs.OperatorTree.Basic
import GradualScript.Proofs.OperatorTree.Reading
import GradualScript.Proofs.OperatorTree.Postfix
import GradualScript.Proofs.OperatorTree.Counting
import GradualScript.Proofs.OperatorTree.Parentheses
import GradualScript.Proofs.OperatorTree.Spacing
import GradualScript.Proofs.Cursor.Moves
import GradualScript.Proofs.Scope.Persistence
import GradualScript.Proofs.Walk.Balance
import GradualScript.Proofs.Cursor.Operand
import GradualScript.Proofs.Walk.Spacing
import GradualScript.Proofs.Program.Meaning
import GradualScript.Proofs.Cursor.Placing
import GradualScript.Proofs.Program.Skipping
import GradualScript.Proofs.Program.Following
import GradualScript.Proofs.Program.Reading
import GradualScript.Proofs.Program.Agreement
import GradualScript.Proofs.Scope.Levels
import GradualScript.Proofs.Walk.Comparison
import GradualScript.Proofs.Walk.Constants
import GradualScript.Proofs.Tandem.Basic
import GradualScript.Proofs.Tandem.Cursor
import GradualScript.Proofs.Value.Bodies
import GradualScript.Proofs.Tandem.Expression
import GradualScript.Proofs.Tandem.Statement
import GradualScript.Proofs.Tandem.Operation
import GradualScript.Proofs.Tandem.Single
import GradualScript.Proofs.Walk.Termination
import GradualScript.Proofs.Walk.Faults
import GradualScript.Proofs.Walk.Visibility
import GradualScript.Proofs.Token.Shape
import GradualScript.Proofs.Token.Lossless
import GradualScript.Proofs.Call.Boundary
import GradualScript.Proofs.Lambda.Grammar
import GradualScript.Proofs.Expression.Layout
import GradualScript.Proofs.Expression.Skipping
import GradualScript.Proofs.Expression.Reading
import GradualScript.Proofs.Line.Reading
import GradualScript.Proofs.Line.Calls
import GradualScript.Proofs.Walk.Invariant
import GradualScript.Proofs.Line.Program
import GradualScript.Proofs.OperatorTree.Typing
import GradualScript.Proofs.Token.Lines
import GradualScript.Proofs.Token.Spelling
import GradualScript.Proofs.Break.Cursor
import GradualScript.Proofs.Break.Expression
import GradualScript.Proofs.Break.Program
import GradualScript.Proofs.Operator.Integer
import GradualScript.Proofs.Program.Return
import GradualScript.Proofs.Expression.Shelter
import GradualScript.Proofs.Expression.Semicolon
import GradualScript.Proofs.Token.PhysicalLines
import GradualScript.Proofs.Lambda.Declaration
import GradualScript.Proofs.Line.Bodies
import GradualScript.Proofs.Token.Longest
import GradualScript.Proofs.Scope.Runs
import GradualScript.Proofs.Program.Numeral
import GradualScript.Proofs.Walk.Requests
import GradualScript.Proofs.Value.Narrowing
