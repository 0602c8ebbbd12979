import GradualScript.Proofs.Tandem.Single
import GradualScript.Proofs.Walk.Comparison

/-!
# Every run ends

Each call that is nested takes from the room that the limit leaves, and each round of a loop takes a token. So the
levels and the steps that a run is given are enough for it, and more of them change nothing, also for programs that
call themselves without end and for tokens that make no sense.

* `Settles` : a run that ends with a value or an error;
* `evaluation_terminates` : programs, calls, and all that is done at a cursor.
-/

set_option autoImplicit false

namespace GradualScript

variable {σ α : Type}

/-- The run ends with a value or with an error of the program; if not every body is `finished`, it may also end with a
body that has no end of input. -/
def Settles (finished : Prop) : EStateM.Result Failure σ α → Prop
  | .ok _ _ => True
  | .error (.error _) _ => True
  | .error (.fault broken) _ => broken = .unterminatedTokens ∧ ¬finished

/-- A fault is one that any bodies admit, and none that finished bodies do. -/
theorem settles_of_alike {finished : Prop} {E R E' R' : σ → σ → Prop} {V V' : α → Prop}
    {result other : EStateM.Result Failure σ α} (hany : Alike (Failure.Possible fun _ => True) E R V result other)
    (hfinished : finished → Alike (Failure.Possible Token.Terminated) E' R' V' result other) :
    Settles finished other := by
  cases hany with
  | ok _ _ => trivial
  | @error failure s t hfailure _ =>
    cases failure with
    | error error => trivial
    | fault broken =>
      refine ⟨hfailure.1, fun h => ?_⟩
      cases hfinished h with
      | error hfailure _ =>
        obtain ⟨-, body, hbody, hnot⟩ := hfailure
        exact hnot hbody

/-- Every program, every call and every operation on tokens up to the end of input ends with a value or an error. It
ends in the same way whenever each body is given as many steps as it has tokens or more, and calls are given more
levels than may be nested. -/
theorem evaluation_terminates (context : Context) :
    (∀ text, Settles (context.BodiesIn Token.Terminated) (evaluate text context) ∧
      ∀ steps levels, (∀ body : List Token, body.length ≤ steps body) → context.room < levels →
        evaluateWith (Executor.within steps levels) text context = evaluate text context) ∧
    (∀ (function : Function) (items : List Item),
      Settles (context.BodiesIn Token.Terminated ∧ Token.Terminated function.body ∧
        ∀ item ∈ items, item.BodiesIn Token.Terminated) (function.invoke context.executor items context) ∧
      ∀ steps levels, (∀ body : List Token, body.length ≤ steps body) → context.room ≤ levels →
        function.invoke (Executor.within steps levels) items context =
          function.invoke context.executor items context) ∧
    ∀ {α : Type} (operation : Operation α) (cursor : Cursor), cursor.Terminated →
      Settles (context.BodiesIn Token.Terminated)
        (operation.run context.executor (cursor.rest.length + 1) ⟨cursor, context⟩) ∧
      ∀ steps levels own, (∀ body : List Token, body.length ≤ steps body) → context.room ≤ levels →
        cursor.rest.length < own →
        operation.run (Executor.within steps levels) own ⟨cursor, context⟩ =
          operation.run context.executor (cursor.rest.length + 1) ⟨cursor, context⟩ := by
  have hall := context.bodiesIn_true
  have hany : ∀ tokens : List Token, Token.Terminated tokens → True := fun _ _ => trivial
  have hown : ∀ tokens : List Token, Token.Terminated tokens → Token.Terminated tokens := fun _ h => h
  have hlength : ∀ body : List Token, body.length ≤ List.length body := fun _ => Nat.le_refl _
  refine ⟨fun text => ?_, fun function items => ?_, fun operation cursor hend => ?_⟩
  · have hfinished := fun hbodies => goes_program hown hbodies hlength (Nat.lt_succ_self context.room) text
    exact ⟨settles_of_alike (goes_program hany hall hlength (Nat.lt_succ_self _) text) hfinished,
      fun steps levels hsteps hlevels => (goes_program hany hall hsteps hlevels text).same⟩
  · have hitems : ∀ item ∈ items, item.BodiesIn fun _ => True := fun _ _ _ _ => trivial
    have hfinished := fun h : context.BodiesIn Token.Terminated ∧ Token.Terminated function.body ∧ _ =>
      goes_call hown h.1 hlength (Nat.le_refl context.room) function items h.2.1 h.2.2
    exact ⟨settles_of_alike (goes_call hany hall hlength (Nat.le_refl _) function items trivial hitems) hfinished,
      fun steps levels hsteps hlevels => (goes_call hany hall hsteps hlevels function items trivial hitems).same⟩
  · have hfinished := fun hbodies =>
      goes_operation hown hbodies hlength (Nat.le_refl context.room) hend (Nat.lt_succ_self _) operation
    exact ⟨settles_of_alike
      (goes_operation hany hall hlength (Nat.le_refl _) hend (Nat.lt_succ_self _) operation) hfinished,
      fun steps levels own hsteps hlevels hlt => (goes_operation hany hall hsteps hlevels hend hlt operation).same⟩

/-- A function of no parameters with the body `return f()`. -/
def endlessFunction : Function where
  parameters := []
  body := [⟨.keyword, "return", .null⟩, ⟨.name, "f", .null⟩, ⟨.opening .round, "(", .null⟩,
    ⟨.closing .round, ")", .null⟩, Token.eof]
  returnTypes := .any
  startLine := 0
  mark := none

/-- The function is bound to `f`, and two calls may be nested. -/
def endlessContext : Context where
  scopes := ⟨[⟨"f", false, .any, .function endlessFunction⟩], []⟩
  registry := .empty
  config := ⟨2⟩
  callDepth := 0

theorem evaluation_terminates_endless :
    evaluate "f()" endlessContext = .error (.error ⟨.runtime "maximum call depth exceeded", 0⟩) endlessContext ∧
      evaluateWith (Executor.within (·.length + 7) 9) "f()" endlessContext = evaluate "f()" endlessContext :=
  ⟨Comparable.eq_of_same (by decide +kernel),
    ((evaluation_terminates endlessContext).1 "f()").2 _ 9 (fun _ => Nat.le_add_right _ 7) (by decide)⟩

end GradualScript
