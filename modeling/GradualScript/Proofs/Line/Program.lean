import GradualScript.Proofs.Tandem.Single
import GradualScript.Proofs.Walk.Invariant
import GradualScript.Proofs.Walk.Comparison

/-!
# Lines of the errors of a program

In a context without functions, every function that is called is written in the program, and every error is reported
through the calls that it came from.

* `Context.Functionless` : no function is bound, and the host gives none;
* `Context.Runs` : a context while the program is run, in which all functions are written in the program;
* `ReportedIn` : an error at a line that is reported through so many calls at most;
* `meets_invoke`, `Executor.reports_block` : calls, and bodies at every level of calls;
* `error_line_reported` : programs.
-/

set_option autoImplicit false

namespace GradualScript

open Token (lineBreaks)

/-- If the value is a function, then one of the program. -/
def Item.WrittenIn (program : List Token) (item : Item) : Prop :=
  ∀ function, item = .function function → function.WrittenIn program

/-- The host never gives a function. -/
structure Registry.Functionless (registry : Registry) : Prop where
  function : ∀ name host, registry.function? name = some host → ∀ items function, host items ≠ .ok (.function function)
  constructor : ∀ name constructor, registry.constructor? name = some constructor →
    ∀ items function, constructor items ≠ .ok (.function function)

/-- No function is bound, and the host gives none. -/
structure Context.Functionless (context : Context) : Prop where
  scopes : context.scopes.Holds fun item => ∀ function, item ≠ .function function
  registry : context.registry.Functionless

/-- The context of a run of the program with `depth` calls going on, of `limit` that may be: all functions in it are
written in the program. -/
structure Context.Runs (program : List Token) (limit depth : Nat) (context : Context) : Prop where
  scopes : context.scopes.Holds (·.WrittenIn program)
  registry : context.registry.Functionless
  limit : context.config.maxCallDepth = limit
  depth : context.callDepth = depth

/-- An error is at a line that the tokens are reported at through `n` calls at most. -/
def ReportedIn (program tokens : List Token) (n : Nat) : Failure → Prop
  | .error error => ∃ calls, calls.length ≤ n ∧ Reported program tokens calls error.line
  | .fault _ => True

variable {program tokens : List Token} {limit depth : Nat} {executor : Executor} {function : Function}
  {items : List Item}

theorem Item.Bare.writtenIn {item : Item} (h : item.Bare) : item.WrittenIn program := by
  rintro function rfl
  exact absurd (.itself function) (h function)

/-- The executor runs tokens of the program in such contexts, and errors are reported through the calls. -/
def Executor.Reports (executor : Executor) (program : List Token) (limit : Nat) : Prop :=
  ∀ depth tokens bindings, Token.Part program tokens → (∀ binding ∈ bindings, binding.item.WrittenIn program) →
    Meets (Context.Runs program limit depth) (ReportedIn program tokens (limit - depth + 1))
      (fun outcome => outcome.item.WrittenIn program) (executor tokens bindings)

/-! ## Calls -/

/-- What is reported in the body of a function is reported through a call of it. -/
theorem reportedIn_rebase {failure : Failure} {n : Nat} (h : ReportedIn program function.body n failure)
    (hcall : Token.hasCall tokens = true) (hwritten : function.WrittenIn program) :
    ReportedIn program tokens (n + 1) (function.rebase failure) := by
  cases failure with
  | fault broken => trivial
  | error error =>
    obtain ⟨calls, hlength, hreported⟩ := h
    exact ⟨function :: calls, Nat.succ_le_succ hlength, .inside hcall hwritten hreported⟩

/-- What is wrong with the call itself is reported where the function starts. -/
theorem reportedIn_start (hcall : Token.hasCall tokens = true) (hwritten : function.WrittenIn program)
    (kind : ErrorKind) (n : Nat) :
    ReportedIn program tokens (n + 1) (.error ⟨kind, function.startLine⟩) :=
  ⟨[function], Nat.succ_le_succ (Nat.zero_le n), .start hcall hwritten⟩

theorem meets_runBody (hexecutor : executor.Reports program limit) (hcall : Token.hasCall tokens = true)
    (hwritten : function.WrittenIn program) (hitems : ∀ item ∈ items, item.WrittenIn program) :
    Meets (Context.Runs program limit depth) (ReportedIn program tokens (limit - depth + 1))
      (fun outcome => outcome.item.WrittenIn program) (function.runBody executor items) := by
  obtain ⟨around, hpart, hdeclared⟩ := hwritten
  have hbody := hexecutor (depth + 1) function.body (List.zipWith Parameter.bind function.parameters items)
    (.body hpart hdeclared) fun binding hbinding => hitems _ (mem_of_mem_bind hbinding)
  intro context hcontext
  unfold Function.runBody ContextM.inCall
  by_cases hroom : context.config.maxCallDepth ≤ context.callDepth
  · rw [if_pos hroom]
    exact reportedIn_start hcall ⟨around, hpart, hdeclared⟩ _ _
  · rw [if_neg hroom]
    rw [hcontext.limit, hcontext.depth] at hroom
    have hdeeper : Context.Runs program limit (depth + 1) { context with callDepth := context.callDepth + 1 } :=
      ⟨hcontext.scopes, hcontext.registry, hcontext.limit, congrArg (· + 1) hcontext.depth⟩
    dsimp only
    cases hrun : executor function.body (List.zipWith Parameter.bind function.parameters items)
        { context with callDepth := context.callDepth + 1 } with
    | ok outcome after =>
      obtain ⟨houtcome, hafter⟩ := hbody.ok hdeeper hrun
      exact ⟨houtcome, hafter.scopes, hafter.registry, hafter.limit, congrArg (· - 1) hafter.depth⟩
    | error failure after =>
      have hfailure := reportedIn_rebase (hbody.error hdeeper hrun) hcall ⟨around, hpart, hdeclared⟩
      have hlength : limit - (depth + 1) + 1 + 1 = limit - depth + 1 := by omega
      rw [hlength] at hfailure
      exact hfailure

theorem meets_invoke (hexecutor : executor.Reports program limit) (hcall : Token.hasCall tokens = true)
    (hwritten : function.WrittenIn program) (hitems : ∀ item ∈ items, item.WrittenIn program) :
    Meets (Context.Runs program limit depth) (ReportedIn program tokens (limit - depth + 1))
      (fun result => result.item.WrittenIn program) (function.invoke executor items) := by
  unfold Function.invoke
  cases function.refusal? items with
  | some kind => exact Meets.throw (reportedIn_start hcall hwritten kind _)
  | none =>
    refine (meets_runBody hexecutor hcall hwritten hitems).bind fun outcome houtcome => ?_
    cases hresult : function.conclude outcome with
    | ok result =>
      exact Meets.pure (holds_of_conclude (Item.WrittenIn program) Item.bare_unit.writtenIn houtcome hresult)
    | error kind => exact Meets.throw (reportedIn_start hcall hwritten kind _)

/-! ## Bodies -/

theorem Executor.Reports.sustains (h : executor.Reports program limit) (hpart : Token.Part program tokens) :
    executor.Sustains tokens (Context.Runs program limit depth) (Item.WrittenIn program)
      (ReportedIn program tokens (limit - depth + 1)) where
  fault _ := trivial
  error _ _ hline := ⟨[], Nat.zero_le _, .here hline⟩
  bare _ hbare := hbare.writtenIn
  lambda function hdeclared := by
    rintro _ ⟨⟩
    exact ⟨tokens, hpart, hdeclared⟩
  lookup? hcontext hfind := hcontext.scopes.lookup? hfind
  host hcontext hfind _ hresult := by
    rintro function rfl
    exact absurd hresult (hcontext.registry.function _ _ hfind _ function)
  constructor hcontext hfind _ hresult := by
    rintro function rfl
    exact absurd hresult (hcontext.registry.constructor _ _ hfind _ function)
  invoke hcall hfunction hitems := meets_invoke h hcall (hfunction _ rfl) hitems
  assign hcontext hitem hassign := { hcontext with scopes := hcontext.scopes.assign hitem hassign }
  declare hcontext hitem hdeclare := { hcontext with scopes := hcontext.scopes.declare hitem hdeclare }
  push hcontext := { hcontext with scopes := hcontext.scopes.push }
  pop hcontext hpop := { hcontext with scopes := hcontext.scopes.pop hpop }

theorem Executor.reports_block (levels : Nat) : (Executor.block levels).Reports program limit := by
  induction levels with
  | zero => exact fun depth tokens bindings _ _ => Meets.throw trivial
  | succ levels ih => exact fun depth tokens bindings hpart hitems => meets_block_succ (ih.sustains hpart) hitems

theorem Context.Functionless.runs {context : Context} (h : context.Functionless) :
    context.Runs program context.config.maxCallDepth context.callDepth where
  scopes level name binding hfound function hitem := absurd hitem (h.scopes level name binding hfound function)
  registry := h.registry
  limit := rfl
  depth := rfl

/-- Each error of a program is reported through the calls that it came from, and these are at most one more than may be
nested. The line is one of the program if there was one call at most, if each function was declared in the one that
called it, or if no call stands between braces. In general each call can take the line further by as many lines as the
program has. -/
theorem error_line_reported {context later : Context} {text : String} {tokens : List Token} {error : Error}
    (hcontext : context.Functionless) (htokens : (Source.ofText text).tokenize = .ok tokens)
    (h : evaluate text context = .error (.error error) later) :
    (∃ calls, calls.length ≤ context.room + 1 ∧ Reported tokens tokens calls error.line ∧
      (calls.length ≤ 1 ∨ Function.Nested tokens calls → error.line ≤ lineBreaks tokens)) ∧
    error.line ≤ lineBreaks tokens * (context.room + 1) ∧
    ((∀ inner ∈ Token.blocks tokens, Token.hasCall inner = false) → error.line ≤ lineBreaks tokens) := by
  have hmeets : Meets (Context.Runs tokens context.config.maxCallDepth context.callDepth)
      (ReportedIn tokens tokens (context.room + 1)) (Item.WrittenIn tokens)
      (evaluateWith context.executor text) := by
    unfold evaluateWith
    rw [htokens]
    refine (Executor.reports_block _ context.callDepth tokens [] .whole (List.forall_mem_nil _)).bind ?_
    exact fun outcome houtcome => Meets.pure houtcome
  obtain ⟨calls, hlength, hreported⟩ := hmeets.error hcontext.runs h
  refine ⟨⟨calls, hlength, hreported, ?_⟩, hreported.le_mul .whole hlength, hreported.le_of_blocks .whole⟩
  rintro (hone | hnested)
  · exact hreported.le_of_length .whole hone
  · exact hreported.le_of_nested hnested

theorem functionless_default : (default : Context).Functionless where
  scopes := by
    intro level name binding hfound
    cases level <;> cases hfound
  registry := ⟨fun _ _ hfind => (by cases hfind), fun _ _ hfind => (by cases hfind)⟩

/-- A function that fails on its first line is called from one that starts further down. -/
def callFromBelow : String :=
  "\n\nlet g = lambda () \x7b return 1/0 \x7d\nlet f = lambda () \x7b return g() \x7d\nf()"

/-- A function that fails on its third line is called from the program. -/
def callFromProgram : String :=
  "let x = 1\nlet f = lambda () \x7b\n    let y = 2\n    return y / 0\n\x7d\nf()"

theorem evaluate_callFromBelow : ∃ tokens, (Source.ofText callFromBelow).tokenize = .ok tokens ∧
    lineBreaks tokens = 4 ∧ evaluate callFromBelow default = .error (.error ⟨.zeroDivision, 5⟩) default :=
  ⟨(Source.ofText callFromBelow).tokenize.toOption.getD [], by decide +kernel, by decide +kernel,
    Comparable.eq_of_same (by decide +kernel)⟩

theorem evaluate_callFromProgram : ∃ tokens, (Source.ofText callFromProgram).tokenize = .ok tokens ∧
    (∀ inner ∈ Token.blocks tokens, Token.hasCall inner = false) ∧
      evaluate callFromProgram default = .error (.error ⟨.zeroDivision, 3⟩) default :=
  ⟨(Source.ofText callFromProgram).tokenize.toOption.getD [], by decide +kernel, by decide +kernel,
    Comparable.eq_of_same (by decide +kernel)⟩

/-- One call inside another takes the line out of the program; a call that stands alone does not. -/
theorem error_line_reported_calls :
    (∃ tokens calls, (Source.ofText callFromBelow).tokenize = .ok tokens ∧ lineBreaks tokens = 4 ∧
      evaluate callFromBelow default = .error (.error ⟨.zeroDivision, 5⟩) default ∧
      Reported tokens tokens calls 5 ∧ 1 < calls.length ∧ ¬Function.Nested tokens calls) ∧
    ∃ tokens, (Source.ofText callFromProgram).tokenize = .ok tokens ∧
      (∀ inner ∈ Token.blocks tokens, Token.hasCall inner = false) ∧
      evaluate callFromProgram default = .error (.error ⟨.zeroDivision, 3⟩) default ∧ 3 ≤ lineBreaks tokens := by
  constructor
  · obtain ⟨tokens, htokens, hbreaks, hrun⟩ := evaluate_callFromBelow
    obtain ⟨⟨calls, -, hreported, hline⟩, -⟩ := error_line_reported functionless_default htokens hrun
    rw [hbreaks] at hline
    refine ⟨tokens, calls, htokens, hbreaks, hrun, hreported, ?_, fun hnested => ?_⟩
    · by_contra hlength
      exact absurd (hline (.inl (Nat.le_of_not_lt hlength))) (by decide)
    · exact absurd (hline (.inr hnested)) (by decide)
  · obtain ⟨tokens, htokens, hblocks, hrun⟩ := evaluate_callFromProgram
    obtain ⟨-, -, hline⟩ := error_line_reported functionless_default htokens hrun
    exact ⟨tokens, htokens, hblocks, hrun, hline hblocks⟩

/-- Where two calls may be nested, the third one takes the line down as often as the bound allows. -/
example : evaluate "\nlet f = lambda () \x7b return f() \x7d; f()" ⟨.empty, .empty, ⟨2⟩, 0⟩ =
    .error (.error ⟨.runtime "maximum call depth exceeded", 1 * (2 + 1)⟩) ⟨.empty, .empty, ⟨2⟩, 0⟩ :=
  Comparable.eq_of_same (by decide +kernel)

/-- An error can be reported behind the last line. -/
theorem error_line_beyond_program : (default : Context).Functionless ∧
    ∃ tokens, (Source.ofText callFromBelow).tokenize = .ok tokens ∧ lineBreaks tokens = 4 ∧
      evaluate callFromBelow default = .error (.error ⟨.zeroDivision, 5⟩) default :=
  ⟨functionless_default, evaluate_callFromBelow⟩

end GradualScript
