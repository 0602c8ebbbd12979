import GradualScript.Proofs.Walk.Balance

/-!
# The boundary of a call

A call checks its arguments and its depth, runs the body of the function at most once, and checks what that gave.

* `Interaction` : a computation that has bodies run, as a tree of its runs and what it does with their answers;
  `Interaction.play` and `Interaction.runs` are its result and its runs with some executor;
* `Function.Refused` : what a call is refused for, in the order of the checks;
* `Function.Entered` : what the body of a function is run with;
* `Function.TypedCall` : what a call promises on all of its ways out;
* `invoke_typed` : every call keeps this promise, as one interaction for all executors.
-/

set_option autoImplicit false

namespace GradualScript

/-! ## Interactions with an executor -/

namespace Executor

/-- What an executor is given for one run. -/
structure Run where
  body : List Token
  bindings : List Binding
  context : Context

/-- What a run gives: an outcome or a failure, and the context that was reached. -/
abbrev Answer := EStateM.Result Failure Context Outcome

/-- What the executor gives for a run. -/
def answer (executor : Executor) (run : Run) : Answer :=
  executor run.body run.bindings run.context

/-- The executor gives back the depth of calls that it was given. -/
def KeepsCallDepth (executor : Executor) : Prop :=
  ∀ body bindings, Keeps (fun context later => later.callDepth = context.callDepth) (executor body bindings)

theorem KeepsCallDepth.answer {executor : Executor} (h : executor.KeepsCallDepth) (run : Run) :
    (endState (executor.answer run)).callDepth = run.context.callDepth :=
  h run.body run.bindings run.context

end Executor

/-- A computation that knows of its executor only what the runs that it asks for give. -/
inductive Interaction (α : Type) where
  | ends (result : α)
  | asks (run : Executor.Run) (next : Executor.Answer → Interaction α)

namespace Interaction

variable {α : Type}

/-- The result with an executor. -/
def play (executor : Executor) : Interaction α → α
  | ends result => result
  | asks run next => (next (executor.answer run)).play executor

/-- The runs that an executor is asked for, in order. -/
def runs (executor : Executor) : Interaction α → List Executor.Run
  | ends _ => []
  | asks run next => run :: (next (executor.answer run)).runs executor

end Interaction

/-- What a body gives to the call: nothing, unless it is left through `return`. -/
def Outcome.given : Outcome → Item
  | .completed _ => .unit
  | .returned item => item

/-! ## The checks of a call -/

/-- The declared type of the parameter takes the value. -/
def Parameter.Accepts (parameter : Parameter) (item : Item) : Prop :=
  parameter.type.accepts item.tag = true

namespace Function

variable {function : Function} {arguments : List Item} {context : Context}

/-- What a call is refused for before the body is run. Of several arguments that their parameters do not take, it is
the first. -/
inductive Refused (function : Function) (arguments : List Item) (context : Context) : ErrorKind → Prop where
  | lacking : arguments.length < function.arity →
      Refused function arguments context (.missingArguments function.arity arguments.length)
  | exceeding : function.arity < arguments.length →
      Refused function arguments context (.excessArguments function.arity arguments.length)
  | mismatched {earlier later : List Parameter} {parameter : Parameter} {accepted rest : List Item} {item : Item} :
      arguments.length = function.arity → function.parameters = earlier ++ parameter :: later →
      arguments = accepted ++ item :: rest → List.Forall₂ Parameter.Accepts earlier accepted →
      ¬ parameter.Accepts item →
      Refused function arguments context (.typeMismatch parameter.type.name item.tag.name)
  | tooDeep : List.Forall₂ Parameter.Accepts function.parameters arguments →
      context.config.maxCallDepth ≤ context.callDepth →
      Refused function arguments context (.runtime "maximum call depth exceeded")

/-- All checks before the body have passed. -/
structure Admitted (function : Function) (arguments : List Item) (context : Context) : Prop where
  accepted : List.Forall₂ Parameter.Accepts function.parameters arguments
  depth : context.callDepth < context.config.maxCallDepth

theorem mismatch?_cons {parameter : Parameter} {parameters : List Parameter} {item : Item} {items : List Item}
    (h : parameter.Accepts item) :
    mismatch? (parameter :: parameters) (item :: items) = mismatch? parameters items := by
  rw [Parameter.Accepts] at h
  rw [mismatch?, if_pos h]

/-- Arguments that are accepted do not hide a later one that is not. -/
theorem mismatch?_append {earlier parameters : List Parameter} {accepted items : List Item}
    (h : List.Forall₂ Parameter.Accepts earlier accepted) :
    mismatch? (earlier ++ parameters) (accepted ++ items) = mismatch? parameters items := by
  induction h with
  | nil => rfl
  | cons haccepts _ ih => rw [List.cons_append, List.cons_append, mismatch?_cons haccepts, ih]

theorem mismatch?_of_accepted {parameters : List Parameter} {items : List Item}
    (h : List.Forall₂ Parameter.Accepts parameters items) : mismatch? parameters items = none := by
  induction h with
  | nil => rfl
  | cons haccepts _ ih => rw [mismatch?_cons haccepts, ih]

/-- The first argument that is not accepted is told. -/
theorem mismatch?_first {earlier later : List Parameter} {parameter : Parameter} {accepted rest : List Item}
    {item : Item} (hearlier : List.Forall₂ Parameter.Accepts earlier accepted) (hfirst : ¬ parameter.Accepts item) :
    mismatch? (earlier ++ parameter :: later) (accepted ++ item :: rest) =
      some (.typeMismatch parameter.type.name item.tag.name) := by
  rw [Parameter.Accepts] at hfirst
  rw [mismatch?_append hearlier, mismatch?, if_neg hfirst]

/-- Either all arguments are accepted, or one of them is the first that is not. -/
theorem accepted_or_mismatch {parameters : List Parameter} {items : List Item}
    (hlength : items.length = parameters.length) :
    List.Forall₂ Parameter.Accepts parameters items ∨
      ∃ earlier parameter later accepted item rest, parameters = earlier ++ parameter :: later ∧
        items = accepted ++ item :: rest ∧ List.Forall₂ Parameter.Accepts earlier accepted ∧
        ¬ parameter.Accepts item := by
  induction parameters generalizing items with
  | nil =>
    rw [List.eq_nil_of_length_eq_zero hlength]
    exact .inl .nil
  | cons parameter parameters ih =>
    obtain ⟨item, items, rfl⟩ := List.exists_cons_of_length_eq_add_one hlength
    by_cases haccepts : parameter.Accepts item
    · rcases ih (Nat.succ.inj hlength) with hall | ⟨earlier, p, later, accepted, i, rest, rfl, rfl, hearlier, hfirst⟩
      · exact .inl (.cons haccepts hall)
      · exact .inr ⟨_ :: earlier, p, later, _ :: accepted, i, rest, rfl, rfl, .cons haccepts hearlier, hfirst⟩
    · exact .inr ⟨[], parameter, parameters, [], item, items, rfl, rfl, .nil, haccepts⟩

theorem refused_or_admitted (function : Function) (arguments : List Item) (context : Context) :
    (∃ kind, function.Refused arguments context kind) ∨ function.Admitted arguments context := by
  rcases Nat.lt_trichotomy arguments.length function.arity with hlt | heq | hgt
  · exact .inl ⟨_, .lacking hlt⟩
  · rcases accepted_or_mismatch heq with hall | ⟨_, _, _, _, _, _, hparameters, harguments, hearlier, hfirst⟩
    · by_cases hdepth : context.config.maxCallDepth ≤ context.callDepth
      · exact .inl ⟨_, .tooDeep hall hdepth⟩
      · exact .inr ⟨hall, Nat.lt_of_not_le hdepth⟩
    · exact .inl ⟨_, .mismatched heq hparameters harguments hearlier hfirst⟩
  · exact .inl ⟨_, .exceeding hgt⟩

theorem refusal?_of_accepted (h : List.Forall₂ Parameter.Accepts function.parameters arguments) :
    function.refusal? arguments = none := by
  have hlength : arguments.length = function.arity := h.length_eq.symm
  rw [refusal?, if_neg (by omega), if_neg (by omega), mismatch?_of_accepted h]

/-- A refused call fails where the function starts, whatever the executor, and the context stays as it was. -/
theorem invoke_of_refused {kind : ErrorKind} (h : function.Refused arguments context kind) (executor : Executor) :
    function.invoke executor arguments context = .error (.error (kind.at function.startLine)) context := by
  rw [invoke]
  cases h with
  | lacking hlt =>
    rw [refusal?, if_pos hlt]
    rfl
  | exceeding hgt =>
    rw [refusal?, if_neg (by omega), if_pos hgt]
    rfl
  | mismatched hlength hparameters harguments hearlier hfirst =>
    rw [refusal?, if_neg (by omega), if_neg (by omega), hparameters, harguments, mismatch?_first hearlier hfirst]
    rfl
  | tooDeep hall hdepth =>
    have hbody : function.runBody executor arguments context =
        .error (.error (ErrorKind.at (.runtime "maximum call depth exceeded") function.startLine)) context := by
      unfold runBody ContextM.inCall
      rw [if_pos hdepth]
      rfl
    rw [refusal?_of_accepted hall]
    exact bind_of_error hbody

/-! ## What follows the body -/

/-- The run of the body for a call. -/
def bodyRun (function : Function) (arguments : List Item) (context : Context) : Executor.Run where
  body := function.body
  bindings := List.zipWith Parameter.bind function.parameters arguments
  context := { context with callDepth := context.callDepth + 1 }

/-- What a call gives for the answer to the run of its body. -/
def finish (function : Function) : Executor.Answer → EStateM.Result Failure Context CallResult
  | .ok outcome reached =>
    match function.conclude outcome with
    | .ok result => .ok result { reached with callDepth := reached.callDepth - 1 }
    | .error kind => .error (.error (kind.at function.startLine)) { reached with callDepth := reached.callDepth - 1 }
  | .error failure reached => .error (function.rebase failure) { reached with callDepth := reached.callDepth - 1 }

/-- A call that is not refused depends on its executor only through one run. -/
theorem invoke_of_admitted (h : function.Admitted arguments context) (executor : Executor) :
    function.invoke executor arguments context =
      function.finish (executor.answer (function.bodyRun arguments context)) := by
  rw [invoke, refusal?_of_accepted h.accepted]
  have hdepth : ¬ context.config.maxCallDepth ≤ context.callDepth := Nat.not_le_of_lt h.depth
  cases hanswer : executor.answer (function.bodyRun arguments context) with
  | ok outcome reached =>
    have hbody : function.runBody executor arguments context =
        .ok outcome { reached with callDepth := reached.callDepth - 1 } := by
      unfold runBody ContextM.inCall
      simp only [Executor.answer, bodyRun] at hanswer
      simp only [if_neg hdepth, hanswer]
    refine (bind_of_ok hbody).trans ?_
    rw [finish]
    cases function.conclude outcome <;> rfl
  | error failure reached =>
    have hbody : function.runBody executor arguments context =
        .error (function.rebase failure) { reached with callDepth := reached.callDepth - 1 } := by
      unfold runBody ContextM.inCall
      simp only [Executor.answer, bodyRun] at hanswer
      simp only [if_neg hdepth, hanswer]
    exact bind_of_error hbody

/-! ## The promise of a call -/

/-- The run is that of the body of the function, after all checks, with one variable per parameter, one call deeper. -/
structure Entered (function : Function) (arguments : List Item) (context : Context) (run : Executor.Run) : Prop where
  length : arguments.length = function.arity
  accepted : List.Forall₂ Parameter.Accepts function.parameters arguments
  body : run.body = function.body
  names : run.bindings.map (·.name) = function.parameters.map (·.name)
  types : run.bindings.map (·.types) = function.parameters.map (.ofDeclared ·.type)
  items : run.bindings.map (·.item) = arguments
  isMutable : ∀ binding ∈ run.bindings, binding.isMutable = true
  deeper : run.context = { context with callDepth := context.callDepth + 1 }
  limit : run.context.callDepth ≤ context.config.maxCallDepth

/-- A call of the function, by the runs of its executor and its result. -/
structure TypedCall (function : Function) (executor : Executor) (arguments : List Item) (context : Context)
    (runs : List Executor.Run) (result : EStateM.Result Failure Context CallResult) : Prop where
  once : runs.length ≤ 1
  entered : ∀ run ∈ runs, function.Entered arguments context run
  /-- A check that fails before the body is told at the line where the function starts, and nothing has changed. -/
  refused : ∀ kind, function.Refused arguments context kind →
    runs = [] ∧ result = .error (.error (kind.at function.startLine)) context
  /-- If no check fails, the body is run. -/
  admitted : (∀ kind, ¬ function.Refused arguments context kind) → ∃ run, runs = [run]
  /-- A result is one that the function may return. It is void exactly if the body ended without `return`. -/
  succeeded : ∀ value later, result = .ok value later →
    arguments.length = function.arity ∧ List.Forall₂ Parameter.Accepts function.parameters arguments ∧
      function.returnTypes.accepts value.item.tag = true ∧
      ∃ run outcome reached, runs = [run] ∧ executor.answer run = .ok outcome reached ∧
        (value.isVoid = true ↔ ∃ item, outcome = .completed item) ∧ value.item = outcome.given
  /-- The call gives what the body gives if its type may be returned, and fails where the function starts if not. -/
  concluded : ∀ run outcome reached, runs = [run] → executor.answer run = .ok outcome reached →
    if function.returnTypes.accepts outcome.given.tag = true
    then ∃ value, result = .ok value { reached with callDepth := context.callDepth }
    else ∃ kind : ErrorKind,
      result = .error (.error (kind.at function.startLine)) { reached with callDepth := context.callDepth }
  /-- A failure of the body is passed on, with its line counted from the start of the function. -/
  failed : ∀ run failure reached, runs = [run] → executor.answer run = .error failure reached →
    result = .error (function.rebase failure) { reached with callDepth := context.callDepth }

theorem map_zipWith_bind {parameters : List Parameter} {items : List Item} (h : items.length = parameters.length) :
    (List.zipWith Parameter.bind parameters items).map (·.name) = parameters.map (·.name) ∧
      (List.zipWith Parameter.bind parameters items).map (·.types) = parameters.map (.ofDeclared ·.type) ∧
      (List.zipWith Parameter.bind parameters items).map (·.item) = items ∧
      ∀ binding ∈ List.zipWith Parameter.bind parameters items, binding.isMutable = true := by
  induction parameters generalizing items with
  | nil =>
    rw [List.eq_nil_of_length_eq_zero h]
    exact ⟨rfl, rfl, rfl, nofun⟩
  | cons parameter parameters ih =>
    obtain ⟨item, items, rfl⟩ := List.exists_cons_of_length_eq_add_one h
    obtain ⟨hnames, htypes, hitems, hmutable⟩ := ih (Nat.succ.inj h)
    refine ⟨congrArg _ hnames, congrArg _ htypes, congrArg _ hitems, fun binding hbinding => ?_⟩
    rcases List.mem_cons.1 hbinding with rfl | hbinding
    · rfl
    · exact hmutable binding hbinding

/-- The body of an admitted call is run with one variable per parameter. -/
theorem Admitted.entered (h : function.Admitted arguments context) :
    function.Entered arguments context (function.bodyRun arguments context) := by
  have hlength : arguments.length = function.arity := h.accepted.length_eq.symm
  obtain ⟨hnames, htypes, hitems, hmutable⟩ := map_zipWith_bind hlength
  exact ⟨hlength, h.accepted, rfl, hnames, htypes, hitems, hmutable, rfl, h.depth⟩

/-- An admitted call is not refused. -/
theorem Admitted.not_refused (h : function.Admitted arguments context) (kind : ErrorKind) :
    ¬ function.Refused arguments context kind := by
  have hlength : arguments.length = function.arity := h.accepted.length_eq.symm
  intro hrefused
  cases hrefused with
  | lacking hlt => omega
  | exceeding hgt => omega
  | mismatched _ hparameters harguments hearlier hfirst =>
    have hnone := mismatch?_of_accepted h.accepted
    rw [hparameters, harguments, mismatch?_first hearlier hfirst] at hnone
    cases hnone
  | tooDeep _ hdepth =>
    have := h.depth
    omega

/-- A body that ends gives the call a value that the function may return, or an error. -/
theorem conclude_given (function : Function) (outcome : Outcome) :
    if function.returnTypes.accepts outcome.given.tag = true
    then ∃ value, function.conclude outcome = .ok value ∧ value.item = outcome.given ∧
      (value.isVoid = true ↔ ∃ item, outcome = .completed item)
    else ∃ kind, function.conclude outcome = .error kind := by
  cases outcome with
  | completed item =>
    rw [conclude, returns, Outcome.given, Item.tag]
    split
    · exact ⟨.void, rfl, rfl, fun _ => ⟨item, rfl⟩, fun _ => rfl⟩
    · exact ⟨_, rfl⟩
  | returned item =>
    rw [conclude, returns, Outcome.given]
    split
    · exact ⟨.value item, rfl, rfl, nofun, nofun⟩
    · exact ⟨_, rfl⟩

/-- A refused call asks for no run. -/
theorem Refused.typedCall {kind : ErrorKind} (h : function.Refused arguments context kind) (executor : Executor) :
    function.TypedCall executor arguments context [] (function.invoke executor arguments context) where
  once := Nat.zero_le _
  entered := nofun
  refused kind' h' := ⟨rfl, invoke_of_refused h' executor⟩
  admitted hnone := absurd h (hnone kind)
  succeeded value later hresult := by
    rw [invoke_of_refused h executor] at hresult
    cases hresult
  concluded := nofun
  failed := nofun

/-- An admitted call asks for the run of the body. -/
theorem Admitted.typedCall (h : function.Admitted arguments context) {executor : Executor}
    (hexecutor : executor.KeepsCallDepth) :
    function.TypedCall executor arguments context [function.bodyRun arguments context]
      (function.invoke executor arguments context) := by
  have hdepth :
      (endState (executor.answer (function.bodyRun arguments context))).callDepth - 1 = context.callDepth := by
    rw [hexecutor.answer]
    rfl
  rw [invoke_of_admitted h executor]
  refine ⟨Nat.le_refl _, ?_, fun kind hrefused => absurd hrefused (h.not_refused kind), fun _ => ⟨_, rfl⟩, ?_, ?_, ?_⟩
  · intro run hrun
    rw [List.mem_singleton.1 hrun]
    exact h.entered
  · intro value later hresult
    cases hanswer : executor.answer (function.bodyRun arguments context) with
    | error failure reached =>
      rw [hanswer] at hresult
      cases hresult
    | ok outcome reached =>
      rw [hanswer, finish] at hresult
      have hgiven := function.conclude_given outcome
      split at hgiven
      · rename_i haccepts
        obtain ⟨value', hvalue, hitem, hvoid⟩ := hgiven
        rw [hvalue] at hresult
        cases hresult
        rw [hitem]
        exact ⟨h.entered.length, h.accepted, haccepts, _, outcome, reached, rfl, hanswer, hvoid, rfl⟩
      · obtain ⟨kind, hkind⟩ := hgiven
        rw [hkind] at hresult
        cases hresult
  · intro run outcome reached hrun hanswer
    cases hrun
    rw [hanswer] at hdepth
    rw [hanswer, finish, show reached.callDepth - 1 = context.callDepth from hdepth]
    have hgiven := function.conclude_given outcome
    split at hgiven
    · rename_i haccepts
      obtain ⟨value, hvalue, -⟩ := hgiven
      rw [if_pos haccepts, hvalue]
      exact ⟨value, rfl⟩
    · rename_i haccepts
      obtain ⟨kind, hkind⟩ := hgiven
      rw [if_neg haccepts, hkind]
      exact ⟨kind, rfl⟩
  · intro run failure reached hrun hanswer
    cases hrun
    rw [hanswer] at hdepth
    rw [hanswer, finish, show reached.callDepth - 1 = context.callDepth from hdepth]

end Function

/-- Every call is checked on both sides of its body, which is run at most once. -/
theorem invoke_typed (function : Function) (arguments : List Item) (context : Context) :
    ∃ course : Interaction (EStateM.Result Failure Context CallResult),
      ∀ executor : Executor, executor.KeepsCallDepth →
        course.play executor = function.invoke executor arguments context ∧
          function.TypedCall executor arguments context (course.runs executor)
            (function.invoke executor arguments context) := by
  rcases function.refused_or_admitted arguments context with ⟨kind, h⟩ | h
  · exact ⟨.ends (.error (.error (kind.at function.startLine)) context), fun executor _ =>
      ⟨(Function.invoke_of_refused h executor).symm, h.typedCall executor⟩⟩
  · exact ⟨.asks (function.bodyRun arguments context) fun answer => .ends (function.finish answer),
      fun executor hexecutor => ⟨(Function.invoke_of_admitted h executor).symm, h.typedCall hexecutor⟩⟩

/-- The executor of the language is one that a call can rely on. -/
theorem Executor.keepsCallDepth_block (levels : Nat) : (Executor.block levels).KeepsCallDepth :=
  fun body bindings => (Executor.steady_block levels body bindings).mono fun _ _ h => h.callDepth

theorem invoke_typed_identity :
    (Executor.block 1).KeepsCallDepth ∧
      ∃ function : Function, function.parameters = [⟨"n", .exact .int⟩] ∧ function.returnTypes = .closed [.int] ∧
        (function.invoke (Executor.block 1) [.int 5] default = .ok (.value (.int 5)) default) ∧
        ∃ course : Interaction (EStateM.Result Failure Context CallResult),
          course.play (Executor.block 1) = function.invoke (Executor.block 1) [.int 5] default ∧
            function.TypedCall (Executor.block 1) [.int 5] default (course.runs (Executor.block 1))
              (function.invoke (Executor.block 1) [.int 5] default) := by
  have hblock := Executor.keepsCallDepth_block 1
  refine ⟨hblock, ⟨[⟨"n", .exact .int⟩], [⟨.keyword, "return", .null⟩, ⟨.name, "n", .null⟩, .eof], .closed [.int], 3,
    none⟩, rfl, rfl, rfl, ?_⟩
  obtain ⟨course, hcourse⟩ := invoke_typed _ _ _
  exact ⟨course, hcourse _ hblock⟩

end GradualScript
