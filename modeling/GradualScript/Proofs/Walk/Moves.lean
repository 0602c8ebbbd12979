import GradualScript.Proofs.Cursor.Moves
import GradualScript.Walk.Expression

/-!
# Expressions step by step

Reading an expression moves the cursor ahead, stores values in variables and calls functions. So a relation between
contexts that allows the last two holds over all of it, whether it succeeds or fails.

* `Walk.Moves R` : the cursor goes ahead and the contexts are related by `R`;
* `Executor.Respects` : what `R` has to allow;
* `WalkM.Keeping R` : computations over which `R` holds, as it does over each form of expression (`keeping_ternary`,
  `keeping_elements`, …).
-/

set_option autoImplicit false

namespace GradualScript

open Cursor (Ahead lasting_ahead)

/-- The cursor goes ahead, and `R` holds between the contexts. -/
structure Walk.Moves (R : Context → Context → Prop) (walk later : Walk) : Prop where
  cursor : walk.cursor.Ahead later.cursor
  context : R walk.context later.context

instance Walk.lasting_moves {R : Context → Context → Prop} [hR : Lasting R] : Lasting (Walk.Moves R) where
  refl walk := ⟨lasting_ahead.refl walk.cursor, hR.refl walk.context⟩
  trans h h' := ⟨lasting_ahead.trans h.cursor h'.cursor, hR.trans h.context h'.context⟩

/-- The relation holds over calls that the executor runs, and over storing a value in a binding that was found
mutable before the value was known. -/
structure Executor.Respects (executor : Executor) (R : Context → Context → Prop) : Prop where
  invoke : ∀ (function : Function) (items : List Item), Keeps R (function.invoke executor items)
  assign : ∀ {context later : Context} {name : String} {binding : Binding} (item : Item),
    context.scopes.lookup? name = some binding → binding.isMutable = true → R context later →
      R context (endState (ContextM.assign name item later))

namespace WalkM

open CursorM

variable {α : Type} {R : Context → Context → Prop} [hlasting : Lasting R]

/-- Over the computation the cursor goes ahead and `R` holds. -/
abbrev Keeping (R : Context → Context → Prop) (m : WalkM α) : Prop := Keeps (Walk.Moves R) m

theorem keeping_reading {m : CursorM α} (h : Advances m) : Keeping R (ofCursor m) := by
  intro walk
  unfold ofCursor
  cases hm : m walk.cursor with
  | ok a cursor => exact ⟨h.ok hm, hlasting.refl walk.context⟩
  | error failure cursor => exact ⟨h.error hm, hlasting.refl walk.context⟩

omit hlasting in
theorem keeping_acting {m : ContextM α} (h : Keeps R m) : Keeping R (ofContext m) := by
  intro walk
  unfold ofContext
  cases hm : m walk.context with
  | ok a context => exact ⟨lasting_ahead.refl walk.cursor, h.ok hm⟩
  | error failure context => exact ⟨lasting_ahead.refl walk.cursor, h.error hm⟩

theorem keeping_fail (error : Error) : Keeping R (fail error : WalkM α) := Keeps.throw _

theorem keeping_failHere (kind : ErrorKind) : Keeping R (failHere kind : WalkM α) :=
  keeping_reading (advances_fail kind)

theorem keeping_current : Keeping R current := fun walk => Walk.lasting_moves.refl walk

theorem keeping_currentLine : Keeping R currentLine := fun walk => Walk.lasting_moves.refl walk

theorem keeping_outOfSteps : Keeping R (outOfSteps : WalkM α) := Keeps.throw _

/-! ## Calls -/

variable {executor : Executor} {inner : WalkM Expression} {steps : Nat}

theorem keeping_calculate (expression : Expression) : Keeping R (calculate expression) := by
  unfold calculate
  split
  · exact Keeps.pure _
  · exact keeping_fail _

theorem keeping_valueOf (h : Keeping R inner) : Keeping R (valueOf inner) :=
  h.bind keeping_calculate

theorem keeping_argumentList (h : Keeping R inner) : Keeping R (argumentList inner steps) := by
  induction steps with
  | zero => exact keeping_outOfSteps
  | succ steps ih =>
    refine (keeping_valueOf h).bind fun item => (keeping_reading advances_currentKind).bind fun kind => ?_
    split
    · exact (keeping_reading advances_advance).bind fun _ => ih.bind fun _ => Keeps.pure _
    · exact (keeping_reading advances_advance).bind fun _ => Keeps.pure _
    · exact keeping_reading advances_unexpectedCurrent

theorem keeping_arguments (h : Keeping R inner) : Keeping R (arguments inner steps) := by
  refine (keeping_reading (advances_expect _)).bind fun _ => ?_
  refine (keeping_reading advances_currentKind).bind fun kind => ?_
  split
  · exact (keeping_reading advances_advance).bind fun _ => Keeps.pure _
  · exact keeping_argumentList h

theorem keeping_hostCall (function : HostFunction) (items : List Item) (line : Nat) :
    Keeping R (hostCall function items line) := by
  unfold hostCall
  split
  · exact Keeps.pure _
  · exact Keeps.pure _
  · exact keeping_fail _

theorem keeping_functionCall (hR : executor.Respects R) (h : Keeping R inner) :
    Keeping R (functionCall executor inner steps) := by
  refine keeping_currentLine.bind fun line => (keeping_reading advances_advance).bind fun token => ?_
  refine (keeping_arguments h).bind fun items => Keeps.get.bind fun walk => ?_
  dsimp only
  split
  · exact keeping_hostCall _ _ _
  · split
    · exact keeping_acting (hR.invoke _ _)
    · exact keeping_fail _

theorem keeping_constructorCall (h : Keeping R inner) : Keeping R (constructorCall inner steps) := by
  refine keeping_currentLine.bind fun line => (keeping_reading advances_advance).bind fun token => ?_
  refine (keeping_arguments h).bind fun items => Keeps.get.bind fun walk => ?_
  split
  · split
    · exact Keeps.pure _
    · exact keeping_fail _
  · exact keeping_fail _

theorem keeping_callSite (hR : executor.Respects R) (h : Keeping R inner) :
    Keeping R (callSite executor inner steps) := by
  refine keeping_current.bind fun token => Keeps.get.bind fun walk => ?_
  dsimp only
  generalize (if token.kind = .name then walk.context.nameKind token.text else NameKind.undeclared) = kind
  cases kind with
  | function => exact (keeping_functionCall hR h).bind fun _ => Keeps.pure _
  | constructor => exact keeping_constructorCall h
  | value => exact keeping_failHere _
  | undeclared => exact keeping_failHere _

/-! ## Ternaries, assignments and names -/

theorem keeping_ternary (h : Keeping R inner) : Keeping R (ternary inner) := by
  refine keeping_currentLine.bind fun line => (keeping_reading (advances_expectKeyword _)).bind fun _ => ?_
  refine (keeping_reading (advances_expect _)).bind fun _ => (keeping_valueOf h).bind fun condition => ?_
  refine (keeping_reading (advances_expect _)).bind fun _ => ?_
  split
  · refine (keeping_valueOf h).bind fun item => (keeping_reading (advances_expectKeyword _)).bind fun _ => ?_
    exact (keeping_reading advances_skipExpression).bind fun _ => Keeps.pure _
  · refine (keeping_reading advances_skipExpression).bind fun _ => ?_
    exact (keeping_reading (advances_expectKeyword _)).bind fun _ => keeping_valueOf h
  · exact keeping_fail _

omit hlasting in
theorem moves_assign (hR : executor.Respects R) {walk later : Walk} {name : String} {binding : Binding} (item : Item)
    (hfind : walk.context.scopes.lookup? name = some binding) (hmutable : binding.isMutable = true)
    (h : walk.Moves R later) : walk.Moves R (endState (ofContext (ContextM.assign name item) later)) := by
  have hcontext := hR.assign item hfind hmutable h.context
  unfold ofContext
  cases hassign : ContextM.assign name item later.context with
  | ok _ context =>
    rw [hassign] at hcontext
    exact ⟨h.cursor, hcontext⟩
  | error failure context =>
    rw [hassign] at hcontext
    exact ⟨h.cursor, hcontext⟩

theorem keeping_assignment (hR : executor.Respects R) (h : Keeping R inner) : Keeping R (assignment inner) := by
  refine keeping_currentLine.bind fun line => (keeping_reading advances_advance).bind fun token => ?_
  refine (keeping_reading (advances_expect _)).bind fun _ => ?_
  intro walk
  rw [bind_get]
  cases hfind : walk.context.scopes.lookup? token.text with
  | none => exact keeping_fail _ walk
  | some binding =>
    by_cases hmutable : binding.isMutable = true
    · simp only [if_pos hmutable]
      cases hvalue : valueOf inner walk with
      | error failure after =>
        rw [bind_of_error hvalue]
        exact (keeping_valueOf h).error hvalue
      | ok item after =>
        rw [bind_of_ok hvalue]
        have hmoves := moves_assign hR item hfind hmutable ((keeping_valueOf h).ok hvalue)
        cases hassign : ofContext (ContextM.assign token.text item) after with
        | ok _ last =>
          rw [bind_of_ok hassign]
          rw [hassign] at hmoves
          exact hmoves
        | error failure last =>
          rw [bind_of_error hassign]
          rw [hassign] at hmoves
          exact hmoves
    · simp only [if_neg hmutable]
      exact keeping_fail _ walk

theorem keeping_nameValue (hR : executor.Respects R) (h : Keeping R inner) : Keeping R (nameValue inner) := by
  refine Keeps.get.bind fun walk => ?_
  dsimp only
  split
  · exact keeping_failHere _
  · split
    · exact keeping_assignment hR h
    · split
      · exact (keeping_reading advances_advance).bind fun _ => Keeps.pure _
      · exact keeping_failHere _

theorem keeping_thisValue : Keeping R thisValue := by
  refine Keeps.get.bind fun walk => ?_
  split
  · exact (keeping_reading advances_advance).bind fun _ => Keeps.pure _
  · exact keeping_failHere _

/-! ## Expressions -/

theorem keeping_plainElement (token : Token) : Keeping R (plainElement token) := by
  unfold plainElement
  split
  · exact Keeps.pure _
  · exact Keeps.pure _
  · split
    · exact Keeps.pure _
    · exact keeping_failHere _
  · split
    · split
      · exact Keeps.pure _
      · exact keeping_failHere _
    · exact keeping_failHere _

theorem keeping_element (hR : executor.Respects R) (h : Keeping R inner) :
    Keeping R (element executor inner steps) := by
  refine Keeps.get.bind fun walk => ?_
  dsimp only
  split
  · exact (keeping_callSite hR h).bind fun _ => Keeps.pure _
  · split
    · exact keeping_failHere _
    · split
      · exact keeping_failHere _
      · split
        · exact (keeping_ternary h).bind fun _ => Keeps.pure _
        · split
          · exact (keeping_reading advances_lambda).bind fun _ => Keeps.pure _
          · split
            · exact keeping_failHere _
            · split
              · exact (keeping_nameValue hR h).bind fun _ => Keeps.pure _
              · split
                · exact keeping_thisValue.bind fun _ => Keeps.pure _
                · refine (keeping_plainElement _).bind fun _ => ?_
                  exact (keeping_reading advances_advance).bind fun _ => Keeps.pure _

theorem keeping_expressionBy {elementsFrom : Nat → WalkM (List Element)}
    (h : ∀ first, Keeping R (elementsFrom first)) : Keeping R (expressionBy elementsFrom) :=
  (keeping_reading advances_skipLineBreaks).bind fun _ => Keeps.get.bind fun _ => (h _).bind fun _ => Keeps.pure _

theorem keeping_elements (hR : executor.Respects R) (first : Nat) (waiting : List TokenKind) :
    Keeping R (elements executor steps first waiting) := by
  induction steps generalizing first waiting with
  | zero => exact keeping_outOfSteps
  | succ steps ih =>
    refine Keeps.get.bind fun walk => ?_
    dsimp only
    split
    · exact Keeps.pure _
    · exact keeping_reading advances_unexpectedCurrent
    · exact (keeping_element hR (keeping_expressionBy fun first => ih first [])).bind fun _ =>
        (ih _ _).bind fun _ => Keeps.pure _

theorem keeping_expression (hR : executor.Respects R) : Keeping R (expression executor) :=
  Keeps.get.bind fun _ => keeping_expressionBy fun first => keeping_elements hR first []

theorem keeping_evaluation (hR : executor.Respects R) : Keeping R (evaluation executor) :=
  keeping_valueOf (keeping_expression hR)

end WalkM

end GradualScript
