import GradualScript.Proofs.Tandem.Statement

/-!
# All that is done at a cursor

* `Operation` : reading tokens, skipping them, evaluating an expression or a part of one, and running statements;
* `Operation.run` : an operation with a number of steps for its loops;
* `Operation.Result` : the functions in what an operation gives have bodies in `p`;
* `coupled_run` : every operation goes alike in related contexts, with two numbers of steps;
* `Operation.keeping_run` : and no operation goes back.
-/

set_option autoImplicit false

namespace GradualScript

open Context (Abreast)

/-- What can be done at a cursor, and what it gives. -/
inductive Operation : Type → Type where
  | advance : Operation Token
  | expect (kind : TokenKind) : Operation Token
  | expectKeyword (word : String) : Operation Token
  | skipLineBreaks : Operation Unit
  | skipStatementBreaks : Operation Unit
  | parameters : Operation (List Parameter)
  | typeNames (types : TypeSet) : Operation TypeSet
  | returnTypes : Operation TypeSet
  | lambda : Operation Function
  | skipGroupRest (start : Token) (depth : Nat) : Operation Unit
  | skipGroup : Operation Unit
  | skipRest (first : Nat) (waiting : List TokenKind) : Operation Unit
  | skipExpression : Operation Unit
  | argumentList : Operation (List Item)
  | arguments : Operation (List Item)
  | functionCall : Operation CallResult
  | constructorCall : Operation Item
  | callSite : Operation Item
  | ternary : Operation Item
  | assignment : Operation Item
  | nameValue : Operation Item
  | element : Operation Element
  | elements (first : Nat) (waiting : List TokenKind) : Operation (List Element)
  | expression : Operation Expression
  | evaluation : Operation Item
  | declaration : Operation Outcome
  | returnStatement : Operation Outcome
  | statement : Operation Outcome
  | statements (stop : TokenKind) : Operation Outcome

namespace Operation

/-- The operation, with calls run by the executor. Its own loop and those of the expressions in it are given a number
of steps. -/
def run (executor : Executor) (steps : Nat) : {α : Type} → Operation α → WalkM α
  | _, advance => CursorM.advance
  | _, expect kind => CursorM.expect kind
  | _, expectKeyword word => CursorM.expectKeyword word
  | _, skipLineBreaks => CursorM.skipLineBreaks
  | _, skipStatementBreaks => CursorM.skipStatementBreaks
  | _, parameters => CursorM.parameters steps
  | _, typeNames types => CursorM.typeNames steps types
  | _, returnTypes => CursorM.returnTypes
  | _, lambda => CursorM.lambda
  | _, skipGroupRest start depth => CursorM.skipGroupRest start steps depth
  | _, skipGroup => CursorM.skipGroup
  | _, skipRest first waiting => CursorM.skipRest steps first waiting
  | _, skipExpression => CursorM.skipExpression
  | _, argumentList => WalkM.argumentList (WalkM.expressionWithin executor steps) steps
  | _, arguments => WalkM.arguments (WalkM.expressionWithin executor steps) steps
  | _, functionCall => WalkM.functionCall executor (WalkM.expressionWithin executor steps) steps
  | _, constructorCall => WalkM.constructorCall (WalkM.expressionWithin executor steps) steps
  | _, callSite => WalkM.callSite executor (WalkM.expressionWithin executor steps) steps
  | _, ternary => WalkM.ternary (WalkM.expressionWithin executor steps)
  | _, assignment => WalkM.assignment (WalkM.expressionWithin executor steps)
  | _, nameValue => WalkM.nameValue (WalkM.expressionWithin executor steps)
  | _, element => WalkM.element executor (WalkM.expressionWithin executor steps) steps
  | _, elements first waiting => WalkM.elements executor steps first waiting
  | _, expression => WalkM.expressionWithin executor steps
  | _, evaluation => WalkM.valueOf (WalkM.expressionWithin executor steps)
  | _, declaration => WalkM.declaration executor
  | _, returnStatement => WalkM.returnStatement executor
  | _, statement => WalkM.statement executor (WalkM.statementsFrom executor steps (.closing .curly) .unit)
  | _, statements stop => WalkM.statementsFrom executor steps stop .unit

/-- The functions in the result have bodies with the property. -/
def Result (p : List Token → Prop) : {α : Type} → Operation α → α → Prop
  | _, lambda => fun function => p function.body
  | _, argumentList | _, arguments => fun items => ∀ item ∈ items, item.BodiesIn p
  | _, functionCall => fun result => result.item.BodiesIn p
  | _, constructorCall | _, callSite | _, ternary | _, assignment | _, nameValue | _, evaluation =>
    fun item => item.BodiesIn p
  | _, element => fun element => element.BodiesIn p
  | _, elements _ _ => fun elements => ∀ element ∈ elements, element.BodiesIn p
  | _, expression => fun expression => expression.BodiesIn p
  | _, declaration | _, returnStatement | _, statement | _, statements _ => fun outcome => outcome.item.BodiesIn p
  | _, _ => fun _ => True

variable {S : Nat → ScopeStack → ScopeStack → Prop} {p : List Token → Prop} {k r N : Nat} {α : Type}
  {executor executor' : Executor} {steps steps' : Nat}

/-- Every operation goes alike in contexts that are abreast, when the numbers of steps are no less than the tokens. -/
theorem coupled_run (hS : Tandem S p) (hC : ∀ k, executor.Couples executor' (Abreast S p k r) p)
    (hdeclare : Declares (S k) p) (hsteps : N ≤ steps) (hsteps' : N ≤ steps') (operation : Operation α) :
    WalkM.Coupled (Abreast S p k r) p N (operation.Result p) (operation.run executor steps)
      (operation.run executor' steps') := by
  intro n hn cursor context other hw hc
  replace hsteps : n ≤ steps := Nat.le_trans hn hsteps
  replace hsteps' : n ≤ steps' := Nat.le_trans hn hsteps'
  have hinner : WalkM.Coupled (Abreast S p k r) p n (·.BodiesIn p) (WalkM.expressionWithin executor steps)
      (WalkM.expressionWithin executor' steps') :=
    WalkM.coupled_expressionWithin (hC k) hsteps hsteps'
  have hkeeps : WalkM.Keeping Context.Persists (WalkM.expressionWithin executor steps) :=
    WalkM.keeping_expressionBy fun first => WalkM.keeping_elements (hC k).steady.respects first []
  have hnested : WalkM.Coupled (Abreast S p (k + 1) r) p n (·.item.BodiesIn p)
      (WalkM.statementsFrom executor steps (.closing .curly) .unit)
      (WalkM.statementsFrom executor' steps' (.closing .curly) .unit) :=
    WalkM.coupled_statementsFrom hS hC (hS.declare k) hsteps hsteps' _ Item.bare_unit.bodiesIn
  have hnext : cursor.advance.Within n := hw.ahead (Cursor.ahead_advance cursor)
  have hmore : cursor.Within (n + 1) := hw.mono (Nat.le_succ n)
  cases operation with
  | advance => exact WalkM.goes_reading (CursorM.reads_advance hw) hc
  | expect kind => exact WalkM.goes_reading (CursorM.reads_expect hw) hc
  | expectKeyword word => exact WalkM.goes_reading (CursorM.reads_expectKeyword hw) hc
  | skipLineBreaks => exact WalkM.goes_reading (CursorM.reads_skipLineBreaks hw) hc
  | skipStatementBreaks => exact WalkM.goes_reading (CursorM.reads_skipStatementBreaks hw) hc
  | parameters => exact WalkM.goes_reading (CursorM.reads_parameters hsteps hsteps' hw) hc
  | typeNames types => exact WalkM.goes_reading (CursorM.reads_typeNames types hsteps hsteps' hw) hc
  | returnTypes => exact WalkM.goes_reading (CursorM.reads_returnTypes hw) hc
  | lambda =>
    exact WalkM.goes_reading ((CursorM.reads_lambda_succ hmore).imp fun _ hbody => hS.captures _ hbody) hc
  | skipGroupRest start depth => exact WalkM.goes_reading (CursorM.reads_skipGroupRest start depth hsteps hsteps' hw) hc
  | skipGroup => exact WalkM.goes_reading (CursorM.reads_skipGroup hw) hc
  | skipRest first waiting => exact WalkM.goes_reading (CursorM.reads_skipRest hsteps hsteps' hw) hc
  | skipExpression => exact WalkM.goes_reading (CursorM.reads_skipExpression hw) hc
  | argumentList => exact WalkM.goes_argumentList hinner (Nat.le_refl n) hsteps hsteps' hw hc
  | arguments => exact WalkM.goes_arguments hinner (Nat.le_refl n) hsteps hsteps' hw hc
  | functionCall => exact WalkM.goes_functionCall (hC k) hinner hsteps hsteps' hnext hc
  | constructorCall => exact WalkM.goes_constructorCall (hC k) hinner hsteps hsteps' hnext hc
  | callSite => exact WalkM.goes_callSite (hC k) hinner hsteps hsteps' hnext hc
  | ternary => exact WalkM.goes_ternary hinner hmore hc
  | assignment => exact WalkM.goes_assignment (hC k) hinner hkeeps hnext hc
  | nameValue => exact WalkM.goes_nameValue (hC k) hinner hkeeps hnext hc
  | element => exact WalkM.goes_element (hC k) hinner hkeeps hsteps hsteps' hmore hnext hc
  | elements first waiting =>
    exact WalkM.coupled_elements (hC k) hsteps hsteps' first waiting n (Nat.le_refl n) _ _ _ hw hc
  | expression => exact hinner n (Nat.le_refl n) cursor context other hw hc
  | evaluation => exact WalkM.goes_valueOf hinner (Nat.le_refl n) hw hc
  | declaration => exact WalkM.goes_declaration hdeclare (hC k) hnext hc
  | returnStatement => exact WalkM.goes_returnStatement (hC k) hnext hc
  | statement =>
    exact WalkM.goes_statement hS hdeclare (hC k) hnested hnext hc (WalkM.goes_evaluation (hC k) hw hc)
  | statements stop =>
    exact WalkM.coupled_statementsFrom hS hC hdeclare hsteps hsteps' stop Item.bare_unit.bodiesIn n (Nat.le_refl n) _ _
      _ hw hc

/-- No operation goes back, and none changes more in the context than statements may. -/
theorem keeping_run (h : executor.Steady) (operation : Operation α) :
    WalkM.Keeping Context.Grows (operation.run executor steps) := by
  have hinner : WalkM.Keeping Context.Persists (WalkM.expressionWithin executor steps) :=
    WalkM.keeping_expressionBy fun first => WalkM.keeping_elements h.respects first []
  cases operation with
  | advance => exact WalkM.keeping_reading CursorM.advances_advance
  | expect kind => exact WalkM.keeping_reading (CursorM.advances_expect kind)
  | expectKeyword word => exact WalkM.keeping_reading (CursorM.advances_expectKeyword word)
  | skipLineBreaks => exact WalkM.keeping_reading CursorM.advances_skipLineBreaks
  | skipStatementBreaks => exact WalkM.keeping_reading CursorM.advances_skipStatementBreaks
  | parameters => exact WalkM.keeping_reading (CursorM.advances_parameters _)
  | typeNames types => exact WalkM.keeping_reading (CursorM.closed_advances.typeNames _ types)
  | returnTypes => exact WalkM.keeping_reading CursorM.advances_returnTypes
  | lambda => exact WalkM.keeping_reading CursorM.advances_lambda
  | skipGroupRest start depth => exact WalkM.keeping_reading (CursorM.closed_advances.skipGroupRest start _ depth)
  | skipGroup => exact WalkM.keeping_reading CursorM.closed_advances.skipGroup
  | skipRest first waiting => exact WalkM.keeping_reading (CursorM.closed_advances.skipRest _ first waiting)
  | skipExpression => exact WalkM.keeping_reading CursorM.advances_skipExpression
  | argumentList => exact (WalkM.keeping_argumentList hinner).growing
  | arguments => exact (WalkM.keeping_arguments hinner).growing
  | functionCall => exact (WalkM.keeping_functionCall h.respects hinner).growing
  | constructorCall => exact (WalkM.keeping_constructorCall hinner).growing
  | callSite => exact (WalkM.keeping_callSite h.respects hinner).growing
  | ternary => exact (WalkM.keeping_ternary hinner).growing
  | assignment => exact (WalkM.keeping_assignment h.respects hinner).growing
  | nameValue => exact (WalkM.keeping_nameValue h.respects hinner).growing
  | element => exact (WalkM.keeping_element h.respects hinner).growing
  | elements first waiting => exact (WalkM.keeping_elements h.respects first waiting).growing
  | expression => exact hinner.growing
  | evaluation => exact (WalkM.keeping_valueOf hinner).growing
  | declaration => exact WalkM.growing_declaration h
  | returnStatement => exact WalkM.growing_returnStatement h
  | statement => exact WalkM.growing_statement h (WalkM.growing_statementsFrom h _ _)
  | statements stop => exact WalkM.growing_statementsFrom h stop .unit

end Operation

end GradualScript
