import GradualScript.Proofs.Tandem.Single

/-!
# No invariant is broken

Where the bodies of all functions end with the end of input, no run drops the global scope, stores a value under a
name without a binding or walks over tokens without an end. The functions at the end are such functions again, in
every binding, in every field of an object and in the result.

* `Unbroken` : a run without a fault, after which the functions have bodies that end as they should;
* `Cursor.Reached` : an index among the tokens, with the token at it;
* `Token.unclosed` : how many more braces are opened than closed, which is never below zero up to the closing brace
  of a body (`unclosed_scanned`);
* `slice_of_curlyBody?` : a body is a slice of the tokens, with its closing brace behind it;
* `runs_unbroken` : programs, calls, and all that is done at a cursor.
-/

set_option autoImplicit false

namespace GradualScript

variable {α : Type}

/-- The run breaks no invariant. Its value has the property, and the functions in reach have bodies that end with the
end of input. -/
def Unbroken (V : α → Prop) : EStateM.Result Failure Context α → Prop
  | .ok a context => V a ∧ context.BodiesIn Token.Terminated
  | .error failure context => failure.Plain ∧ context.BodiesIn Token.Terminated

/-- The same tokens further on, at an index among them. A cursor has no other indices; that none of its moves is cut
short for this is `Cursor.position_skipWhile` and `Cursor.position_advance`. -/
structure Cursor.Reached (cursor later : Cursor) : Prop where
  tokens : later.tokens = cursor.tokens
  position : cursor.position ≤ later.position
  inRange : later.position < cursor.tokens.length
  current : cursor.tokens[later.position]? = some later.current

theorem Failure.Possible.plain {failure : Failure} (h : failure.Possible Token.Terminated) : failure.Plain := by
  cases failure with
  | error error => exact ⟨error, rfl⟩
  | fault broken =>
    obtain ⟨-, body, hbody, hnot⟩ := h
    exact absurd hbody hnot

theorem unbroken_of_goes {V : α → Prop} {k r : Nat} {result other : EStateM.Result Failure Context α}
    (h : ContextM.Goes (ScopeStack.Same Token.Terminated) Token.Terminated k r V result other) : Unbroken V other := by
  cases h with
  | ok hv hc =>
    rw [hc.eq]
    exact ⟨hv, hc.bodiesIn⟩
  | error hf hc =>
    rw [hc.eq]
    exact ⟨hf.plain, hc.bodiesIn⟩

/-! ## Places among the tokens -/

theorem Cursor.Ahead.reached {cursor later : Cursor} (h : cursor.Ahead later) : cursor.Reached later where
  tokens := h.tokens
  position := h.position
  inRange := by
    rw [← h.tokens]
    exact later.position_lt_length
  current := by
    rw [← h.tokens]
    exact later.getElem?_position

namespace Token

/-- How many more braces are opened than closed. -/
def unclosed (tokens : List Token) : Int :=
  tokens.countP (·.kind = .opening .curly) - tokens.countP (·.kind = .closing .curly)

theorem unclosed_cons (token : Token) (tokens : List Token) :
    unclosed (token :: tokens) = unclosed tokens +
      if token.kind = .opening .curly then 1 else if token.kind = .closing .curly then -1 else 0 := by
  rw [unclosed, unclosed, List.countP_cons, List.countP_cons]
  by_cases hopening : token.kind = .opening .curly
  · simp only [hopening, decide_true, if_true, reduceCtorEq, decide_false, Bool.false_eq_true, if_false]
    omega
  · by_cases hclosing : token.kind = .closing .curly
    · simp only [hclosing, reduceCtorEq, decide_false, Bool.false_eq_true, if_false, decide_true, if_true]
      omega
    · simp only [hopening, hclosing, decide_false, Bool.false_eq_true, if_false]
      omega

/-- The tokens that are looked at for a closing brace: those before it, or all if there is none. -/
def scanned (depth : Nat) (tokens : List Token) : List Token :=
  (curlyBody? depth tokens).getD tokens

/-- Up to the closing brace, no more braces are closed than have been opened. -/
theorem unclosed_scanned (depth : Nat) (tokens : List Token) (n : Nat) :
    0 ≤ depth + unclosed ((scanned depth tokens).take n) := by
  have hcons : ∀ (found : Option (List Token)) (token : Token) (rest : List Token),
      (found.map (token :: ·)).getD (token :: rest) = token :: found.getD rest := by
    intro found token rest
    cases found <;> rfl
  rw [scanned]
  fun_induction curlyBody? depth tokens generalizing n with
  | case1 depth => simp [unclosed]
  | case2 token rest depth hopening ih =>
    rw [hcons]
    cases n with
    | zero => simp [unclosed]
    | succ n =>
      have hrest := ih n
      rw [List.take_succ_cons, unclosed_cons, if_pos hopening]
      omega
  | case3 token rest hclosing => simp [unclosed]
  | case4 token rest depth hclosing ih =>
    rw [hcons]
    cases n with
    | zero =>
      simp only [List.take_zero, unclosed, List.countP_nil]
      omega
    | succ n =>
      have hrest := ih n
      rw [List.take_succ_cons, unclosed_cons, hclosing]
      simp only [reduceCtorEq, if_false, if_true]
      omega
  | case5 token rest depth hopening houtside hinside ih =>
    rw [hcons]
    cases n with
    | zero => simp [unclosed]
    | succ n =>
      have hrest := ih n
      have hclosing : token.kind ≠ .closing .curly := by
        intro hkind
        cases depth with
        | zero => exact houtside hkind rfl
        | succ depth => exact hinside depth hkind rfl
      rw [List.take_succ_cons, unclosed_cons, if_neg hopening, if_neg hclosing]
      omega

/-- The tokens of a body are those between its braces, and both braces are among the tokens. -/
theorem slice_of_curlyBody? {cursor : Cursor} {body : List Token} (h : curlyBody? 0 cursor.rest = some body) :
    (cursor.tokens.drop (cursor.position + 1)).take body.length = body ∧
      ∃ closing, cursor.tokens[cursor.position + 1 + body.length]? = some closing ∧
        closing.kind = .closing .curly := by
  obtain ⟨closing, more, hrest, hkind, -⟩ := curlyBody?_eq_some h
  have hdrop : cursor.tokens.drop (cursor.position + 1) = cursor.rest := by
    rw [Cursor.tokens, Cursor.position, ← List.length_reverse, ← List.drop_drop, List.drop_left]
    rfl
  refine ⟨by rw [hdrop, hrest, List.take_left], closing, ?_, hkind⟩
  rw [← List.getElem?_drop, hdrop, hrest]
  simp

end Token

/-- In a context where the bodies of all functions end with the end of input, no program, no call of such a function
with such arguments and no operation on tokens up to the end of input breaks an invariant, and the context is such a
context again. Cursors stay among their tokens; so do the braces of a body, which are counted without ever closing more
than have been opened. -/
theorem runs_unbroken (context : Context) (h : context.BodiesIn Token.Terminated) :
    (∀ text, Unbroken (·.BodiesIn Token.Terminated) (evaluate text context)) ∧
    (∀ (function : Function) (items : List Item), Token.Terminated function.body →
      (∀ item ∈ items, item.BodiesIn Token.Terminated) →
      Unbroken (·.item.BodiesIn Token.Terminated) (function.invoke context.executor items context)) ∧
    (∀ {α : Type} (operation : Operation α) (cursor : Cursor) (steps : Nat), cursor.Terminated →
      cursor.rest.length < steps →
      Unbroken (operation.Result Token.Terminated)
        (ContextM.walk cursor (operation.run context.executor steps) context) ∧
      cursor.Reached (endState (operation.run context.executor steps ⟨cursor, context⟩)).cursor) ∧
    (∀ (cursor : Cursor) (body : List Token), Token.curlyBody? 0 cursor.rest = some body →
      (cursor.tokens.drop (cursor.position + 1)).take body.length = body ∧
        ∃ closing, cursor.tokens[cursor.position + 1 + body.length]? = some closing ∧
          closing.kind = .closing .curly) ∧
    ∀ (cursor : Cursor) (n : Nat), 0 ≤ Token.unclosed ((Token.scanned 0 cursor.rest).take n) := by
  have hown : ∀ tokens : List Token, Token.Terminated tokens → Token.Terminated tokens := fun _ h => h
  have hlength : ∀ body : List Token, body.length ≤ List.length body := fun _ => Nat.le_refl _
  refine ⟨fun text => ?_, fun function items hbody hitems => ?_, fun operation cursor steps hend hsteps => ⟨?_, ?_⟩,
    fun cursor body => Token.slice_of_curlyBody?, fun cursor n => ?_⟩
  · exact unbroken_of_goes (goes_program hown h hlength (Nat.lt_succ_self _) text)
  · exact unbroken_of_goes (goes_call hown h hlength (Nat.le_refl _) function items hbody hitems)
  · have hgoes := goes_operation hown h hlength (Nat.le_succ _) hend hsteps operation
    rw [← Executor.block_eq_within] at hgoes
    rw [← hgoes.same] at hgoes
    exact unbroken_of_goes (ContextM.goes_walk hgoes)
  · exact (operation.keeping_run (Executor.steady_block _) ⟨cursor, context⟩).cursor.reached
  · simpa using Token.unclosed_scanned 0 cursor.rest n

/-- A constructor of objects that hold what it is given. -/
def box : HostFunction := fun items =>
  .ok (.object "Box" (items.map ("item", ·)))

theorem bodiesIn_box (p : List Token → Prop) : box.BodiesIn p := by
  rintro items _ hitems ⟨⟩ function hcarries
  cases hcarries with
  | field hmem hcarries =>
    obtain ⟨_, hitem, heq⟩ := List.mem_map.1 hmem
    cases heq
    exact hitems _ hitem function hcarries

/-- A variable `f` that is a function with an empty body, and a class of boxes. -/
def boxContext : Context where
  scopes := ⟨[⟨"f", true, .any, .function ⟨[], [Token.eof], .any, 0, none⟩⟩], []⟩
  registry := Registry.empty.registerUserClass "Box" box
  config := default
  callDepth := 0

theorem bodiesIn_boxContext : boxContext.BodiesIn Token.Terminated where
  scopes := by
    have hempty : ScopeStack.empty.BodiesIn Token.Terminated := by
      intro level name binding hfound
      cases level <;> cases hfound
    exact hempty.declare (Item.bodiesIn_function.2 (by decide))
  hosts := by
    refine ⟨fun name function hfind => (by cases hfind), fun name constructor hfind => ?_⟩
    have hfind : (List.lookup name [("Box", box)]).or none = some constructor := hfind
    rw [Option.or_none, List.lookup_cons] at hfind
    split at hfind
    · cases hfind
      exact bodiesIn_box _
    · cases hfind

/-- A function that is stored in an object, and the object in a variable, together with a function from the text. -/
theorem runs_unbroken_boxed :
    boxContext.BodiesIn Token.Terminated ∧
      Unbroken (·.BodiesIn Token.Terminated) (evaluate "f = Box(f, lambda (x) { return x })" boxContext) :=
  ⟨bodiesIn_boxContext, (runs_unbroken boxContext bodiesIn_boxContext).1 _⟩

end GradualScript
