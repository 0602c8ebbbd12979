import GradualScript.Proofs.Tandem.Cursor
import GradualScript.Proofs.Value.Bodies
import GradualScript.Proofs.Walk.Balance
import GradualScript.Proofs.Walk.Spacing

/-!
# Expressions that are read twice

Two runs read the same tokens in contexts that are related by `C`. They stay side by side, if look-ups give them the
same bindings and calls go alike.

* `Failure.Possible` : an error of the program, or a body without an end if there is one;
* `Registry.BodiesIn` : what the host returns has only functions whose bodies have a property;
* `Executor.Couples` : what `C` has to allow;
* `WalkM.Goes` : two runs that end alike, with fewer than `n` tokens to come;
* `goes_ternary`, `goes_assignment`, … : one lemma for each form, in terms of the readers of what is inside it;
* `coupled_elements`, `coupled_expression` : expressions, with two numbers of steps.
-/

set_option autoImplicit false

namespace GradualScript

/-- A failure that can occur when the bodies of functions have the property `p`: no invariant is broken, but that a
body may lack its end. -/
def Failure.Possible (p : List Token → Prop) : Failure → Prop
  | .error _ => True
  | .fault broken => broken = .unterminatedTokens ∧ ∃ body, p body ∧ ¬Token.Terminated body

theorem Failure.Plain.possible {p : List Token → Prop} {failure : Failure} (h : failure.Plain) :
    failure.Possible p := by
  obtain ⟨error, rfl⟩ := h
  trivial

/-- A function of the host that is given values with bodies in `p` returns only such values. -/
def HostFunction.BodiesIn (p : List Token → Prop) (function : HostFunction) : Prop :=
  ∀ items item, (∀ item ∈ items, item.BodiesIn p) → function items = .ok item → item.BodiesIn p

/-- So do all functions and constructors. -/
structure Registry.BodiesIn (p : List Token → Prop) (registry : Registry) : Prop where
  function : ∀ name function, registry.function? name = some function → function.BodiesIn p
  constructor : ∀ name constructor, registry.constructor? name = some constructor → constructor.BodiesIn p

variable {C : Context → Context → Prop} {p : List Token → Prop} {executor executor' : Executor}

/-- Contexts that are related have the same bindings in sight, with bodies in `p`; they stay related over calls that
the two executors run, and over storing a value under a name. -/
structure Executor.Couples (executor executor' : Executor) (C : Context → Context → Prop)
    (p : List Token → Prop) : Prop where
  captures : ∀ tokens, Token.Terminated tokens → p tokens
  steady : executor.Steady
  registry : ∀ {context other}, C context other → other.registry = context.registry
  hosts : ∀ {context other}, C context other → context.registry.BodiesIn p
  lookup? : ∀ {context other}, C context other → ∀ name, other.scopes.lookup? name = context.scopes.lookup? name
  bodiesIn : ∀ {context other name binding}, C context other → context.scopes.lookup? name = some binding →
    binding.item.BodiesIn p
  assign : ∀ {context other name binding item}, C context other → context.scopes.lookup? name = some binding →
    item.BodiesIn p → ∃ scopes scopes', context.scopes.assign name item = .ok scopes ∧
      other.scopes.assign name item = .ok scopes' ∧ C { context with scopes } { other with scopes := scopes' }
  invoke : ∀ {context other} {function : Function} {items}, C context other → p function.body →
    (∀ item ∈ items, item.BodiesIn p) → Alike (Failure.Possible p) C C (fun result => result.item.BodiesIn p)
      (function.invoke executor items context) (function.invoke executor' items other)

namespace WalkM

variable {α β : Type} {n m N : Nat} {V : α → Prop} {W : β → Prop} {cursor : Cursor} {context other : Context}

/-- Two runs end alike: in one place with fewer than `n` tokens to come, or in one place with one failure; the contexts
are related in both cases. -/
abbrev Goes (C : Context → Context → Prop) (p : List Token → Prop) (n : Nat) (V : α → Prop)
    (result other : EStateM.Result Failure Walk α) : Prop :=
  Alike (Failure.Possible p) (fun walk other => other.cursor = walk.cursor ∧ C walk.context other.context)
    (fun walk other => other.cursor = walk.cursor ∧ walk.cursor.Within n ∧ C walk.context other.context) V result other

/-- Two walks go alike from every place with fewer than `N` tokens to come, and do not go back. -/
def Coupled (C : Context → Context → Prop) (p : List Token → Prop) (N : Nat) (V : α → Prop)
    (walk walk' : WalkM α) : Prop :=
  ∀ n ≤ N, ∀ (cursor : Cursor) (context other : Context), cursor.Within n → C context other →
    Goes C p n V (walk ⟨cursor, context⟩) (walk' ⟨cursor, other⟩)

namespace Goes

variable {result result' : EStateM.Result Failure Walk α}

theorem mono (h : Goes C p m V result result') (hle : m ≤ n) : Goes C p n V result result' :=
  Alike.imp h (fun _ hf => hf) (fun _ _ he => he) (fun _ _ hr => ⟨hr.1, hr.2.1.mono hle, hr.2.2⟩) fun _ hv => hv

theorem bindRun {walk walk' : WalkM α} {f f' : α → WalkM β} {s t : Walk} (h : Goes C p m V (walk s) (walk' t))
    (hf : ∀ a (cursor : Cursor) (context other : Context), walk s = .ok a ⟨cursor, context⟩ → V a →
      cursor.Within m → C context other → Goes C p n W (f a ⟨cursor, context⟩) (f' a ⟨cursor, other⟩)) :
    Goes C p n W ((walk >>= f) s) ((walk' >>= f') t) := by
  refine Alike.bindRun h fun a later later' hrun hv hr => ?_
  obtain ⟨cursor, context⟩ := later
  obtain ⟨cursor', other⟩ := later'
  obtain ⟨heq, hwithin, hc⟩ := hr
  cases heq
  exact hf a cursor context other hrun hv hwithin hc

theorem bind {walk walk' : WalkM α} {f f' : α → WalkM β} {s t : Walk} (h : Goes C p m V (walk s) (walk' t))
    (hf : ∀ a (cursor : Cursor) (context other : Context), V a → cursor.Within m → C context other →
      Goes C p n W (f a ⟨cursor, context⟩) (f' a ⟨cursor, other⟩)) :
    Goes C p n W ((walk >>= f) s) ((walk' >>= f') t) :=
  h.bindRun fun a cursor context other _ => hf a cursor context other

end Goes

theorem goes_pure {a : α} (hV : V a) (hw : cursor.Within n) (hc : C context other) :
    Goes C p n V ((pure a : WalkM α) ⟨cursor, context⟩) ((pure a : WalkM α) ⟨cursor, other⟩) :=
  .ok hV ⟨rfl, hw, hc⟩

theorem goes_fail (error : Error) (hc : C context other) :
    Goes C p n V ((fail error : WalkM α) ⟨cursor, context⟩) ((fail error : WalkM α) ⟨cursor, other⟩) :=
  .error trivial ⟨rfl, hc⟩

theorem goes_failHere (kind : ErrorKind) (hc : C context other) :
    Goes C p n V ((failHere kind : WalkM α) ⟨cursor, context⟩) ((failHere kind : WalkM α) ⟨cursor, other⟩) :=
  .error trivial ⟨rfl, hc⟩

theorem goes_reading {reading reading' : CursorM α} (h : CursorM.Reads n V (reading cursor) (reading' cursor))
    (hc : C context other) :
    Goes C p n V (ofCursor reading ⟨cursor, context⟩) (ofCursor reading' ⟨cursor, other⟩) := by
  rw [ofCursor, ofCursor]
  generalize reading cursor = result, reading' cursor = result' at h
  cases h with
  | ok hv hr => exact .ok hv ⟨hr.1, hr.2, hc⟩
  | error hf he => exact .error hf.possible ⟨he, hc⟩

theorem goes_currentKind {f f' : TokenKind → WalkM β}
    (hf : ∀ kind, cursor.current.kind = kind → Goes C p n W (f kind ⟨cursor, context⟩) (f' kind ⟨cursor, other⟩)) :
    Goes C p n W ((ofCursor CursorM.currentKind >>= f) ⟨cursor, context⟩)
      ((ofCursor CursorM.currentKind >>= f') ⟨cursor, other⟩) :=
  hf _ rfl

theorem goes_current {f f' : Token → WalkM β}
    (hf : Goes C p n W (f cursor.current ⟨cursor, context⟩) (f' cursor.current ⟨cursor, other⟩)) :
    Goes C p n W ((current >>= f) ⟨cursor, context⟩) ((current >>= f') ⟨cursor, other⟩) :=
  hf

theorem goes_currentLine {f f' : Nat → WalkM β}
    (hf : ∀ line, Goes C p n W (f line ⟨cursor, context⟩) (f' line ⟨cursor, other⟩)) :
    Goes C p n W ((currentLine >>= f) ⟨cursor, context⟩) ((currentLine >>= f') ⟨cursor, other⟩) :=
  hf _

theorem goes_acting {action action' : ContextM α}
    (h : Alike (Failure.Possible p) C C V (action context) (action' other)) (hw : cursor.Within n) :
    Goes C p n V (ofContext action ⟨cursor, context⟩) (ofContext action' ⟨cursor, other⟩) := by
  rw [ofContext, ofContext]
  generalize action context = result, action' other = result' at h
  cases h with
  | ok hv hr => exact .ok hv ⟨rfl, hw, hr⟩
  | error hf he => exact .error hf ⟨rfl, he⟩

/-! ## Calls -/

variable {inner inner' : WalkM Expression} {steps steps' : Nat}

theorem goes_calculate {expression : Expression} (h : expression.BodiesIn p) (hw : cursor.Within n)
    (hc : C context other) : Goes C p n (·.BodiesIn p) (calculate expression ⟨cursor, context⟩)
      (calculate expression ⟨cursor, other⟩) := by
  rw [calculate, Expression.calculate]
  cases hvalue : Expression.value expression.elements with
  | ok item => exact goes_pure (bodiesIn_of_value h hvalue) hw hc
  | error kind => exact goes_fail _ hc

theorem goes_valueOf (hinner : Coupled C p N (·.BodiesIn p) inner inner') (hn : n ≤ N) (hw : cursor.Within n)
    (hc : C context other) :
    Goes C p n (·.BodiesIn p) (valueOf inner ⟨cursor, context⟩) (valueOf inner' ⟨cursor, other⟩) :=
  (hinner n hn cursor context other hw hc).bind fun _ _ _ _ h hw hc => goes_calculate h hw hc

theorem goes_argumentList (hinner : Coupled C p N (·.BodiesIn p) inner inner') (hn : n ≤ N) (hsteps : n ≤ steps)
    (hsteps' : n ≤ steps') (hw : cursor.Within n) (hc : C context other) :
    Goes C p n (fun items => ∀ item ∈ items, item.BodiesIn p) (argumentList inner steps ⟨cursor, context⟩)
      (argumentList inner' steps' ⟨cursor, other⟩) := by
  induction n generalizing steps steps' cursor context other with
  | zero => exact absurd hw.length (Nat.not_lt_zero _)
  | succ n ih =>
    obtain ⟨steps, rfl⟩ := Nat.exists_eq_add_one.2 (Nat.lt_of_lt_of_le n.succ_pos hsteps)
    obtain ⟨steps', rfl⟩ := Nat.exists_eq_add_one.2 (Nat.lt_of_lt_of_le n.succ_pos hsteps')
    rw [argumentList, argumentList]
    refine (goes_valueOf hinner hn hw hc).bind fun item cursor context other hitem hw hc => ?_
    refine goes_currentKind fun kind hkind => ?_
    split
    · refine (goes_reading (CursorM.reads_advance_succ hw (hkind ▸ TokenKind.noConfusion)) hc).bind
        fun _ cursor context other _ hw hc => ?_
      refine (ih (by omega) (by omega) (by omega) hw hc).bind fun items cursor context other hitems hw hc => ?_
      exact goes_pure (List.forall_mem_cons.2 ⟨hitem, hitems⟩) (hw.mono (Nat.le_succ n)) hc
    · refine (goes_reading (CursorM.reads_advance hw) hc).bind fun _ cursor context other _ hw hc => ?_
      exact goes_pure (by simpa using hitem) hw hc
    · exact goes_reading CursorM.reads_unexpectedCurrent hc

theorem goes_arguments (hinner : Coupled C p N (·.BodiesIn p) inner inner') (hn : n ≤ N) (hsteps : n ≤ steps)
    (hsteps' : n ≤ steps') (hw : cursor.Within n) (hc : C context other) :
    Goes C p n (fun items => ∀ item ∈ items, item.BodiesIn p) (arguments inner steps ⟨cursor, context⟩)
      (arguments inner' steps' ⟨cursor, other⟩) := by
  rw [arguments, arguments]
  refine (goes_reading (CursorM.reads_expect hw) hc).bind fun _ cursor context other _ hw hc => ?_
  refine goes_currentKind fun kind _ => ?_
  split
  · refine (goes_reading (CursorM.reads_advance hw) hc).bind fun _ cursor context other _ hw hc => ?_
    exact goes_pure (by simp) hw hc
  · exact goes_argumentList hinner hn hsteps hsteps' hw hc

theorem goes_hostCall {function : HostFunction} {items : List Item} {line : Nat} (hfunction : function.BodiesIn p)
    (hitems : ∀ item ∈ items, item.BodiesIn p) (hw : cursor.Within n) (hc : C context other) :
    Goes C p n (·.item.BodiesIn p) (hostCall function items line ⟨cursor, context⟩)
      (hostCall function items line ⟨cursor, other⟩) := by
  rw [hostCall]
  cases hresult : function items with
  | error kind => exact goes_fail _ hc
  | ok item =>
    have hitem := hfunction items item hitems hresult
    cases item with
    | unit => exact goes_pure Item.bare_unit.bodiesIn hw hc
    | int | float | bool | char | string | function | object => exact goes_pure hitem hw hc

theorem goes_functionCall (hC : executor.Couples executor' C p) (hinner : Coupled C p n (·.BodiesIn p) inner inner')
    (hsteps : n ≤ steps) (hsteps' : n ≤ steps') (hnext : cursor.advance.Within n)
    (hc : C context other) :
    Goes C p n (·.item.BodiesIn p) (functionCall executor inner steps ⟨cursor, context⟩)
      (functionCall executor' inner' steps' ⟨cursor, other⟩) := by
  rw [functionCall, functionCall]
  refine goes_currentLine fun line => ?_
  refine (goes_reading (CursorM.reads_next hnext) hc).bind fun token cursor context other _ hw hc => ?_
  refine (goes_arguments hinner (Nat.le_refl n) hsteps hsteps' hw hc).bind
    fun items cursor context other hitems hw hc => ?_
  rw [bind_get, bind_get]
  dsimp only
  rw [hC.registry hc, hC.lookup? hc]
  cases hhost : context.registry.function? token.text with
  | some function => exact goes_hostCall ((hC.hosts hc).function _ _ hhost) hitems hw hc
  | none =>
    cases hfind : context.scopes.lookup? token.text with
    | none => exact goes_fail _ hc
    | some binding =>
      have hbodies := hC.bodiesIn hc hfind
      dsimp only [Option.map_some]
      generalize binding.item = item at hbodies
      cases item with
      | function function => exact goes_acting (hC.invoke hc (Item.bodiesIn_function.1 hbodies) hitems) hw
      | int | float | bool | char | string | unit | object => exact goes_fail _ hc

theorem goes_constructorCall (hC : executor.Couples executor' C p)
    (hinner : Coupled C p n (·.BodiesIn p) inner inner') (hsteps : n ≤ steps) (hsteps' : n ≤ steps')
    (hnext : cursor.advance.Within n) (hc : C context other) :
    Goes C p n (·.BodiesIn p) (constructorCall inner steps ⟨cursor, context⟩)
      (constructorCall inner' steps' ⟨cursor, other⟩) := by
  rw [constructorCall, constructorCall]
  refine goes_currentLine fun line => ?_
  refine (goes_reading (CursorM.reads_next hnext) hc).bind fun token cursor context other _ hw hc => ?_
  refine (goes_arguments hinner (Nat.le_refl n) hsteps hsteps' hw hc).bind
    fun items cursor context other hitems hw hc => ?_
  rw [bind_get, bind_get]
  dsimp only
  rw [hC.registry hc]
  cases hhost : context.registry.constructor? token.text with
  | none => exact goes_fail _ hc
  | some constructor =>
    dsimp only
    cases hresult : constructor items with
    | ok item => exact goes_pure ((hC.hosts hc).constructor _ _ hhost items item hitems hresult) hw hc
    | error kind => exact goes_fail _ hc

theorem nameKind_eq (hC : executor.Couples executor' C p) (hc : C context other) (name : String) :
    other.nameKind name = context.nameKind name := by
  rw [Context.nameKind, Context.nameKind, hC.registry hc, hC.lookup? hc]

theorem goes_callSite (hC : executor.Couples executor' C p) (hinner : Coupled C p n (·.BodiesIn p) inner inner')
    (hsteps : n ≤ steps) (hsteps' : n ≤ steps') (hnext : cursor.advance.Within n)
    (hc : C context other) :
    Goes C p n (·.BodiesIn p) (callSite executor inner steps ⟨cursor, context⟩)
      (callSite executor' inner' steps' ⟨cursor, other⟩) := by
  rw [callSite, callSite]
  refine goes_current ?_
  rw [bind_get, bind_get]
  dsimp only
  rw [nameKind_eq hC hc]
  generalize (if cursor.current.kind = .name then context.nameKind cursor.current.text
    else NameKind.undeclared) = kind
  cases kind with
  | function =>
    refine (goes_functionCall hC hinner hsteps hsteps' hnext hc).bind fun result cursor context other hr hw hc => ?_
    exact goes_pure hr hw hc
  | constructor => exact goes_constructorCall hC hinner hsteps hsteps' hnext hc
  | value => exact goes_failHere _ hc
  | undeclared => exact goes_failHere _ hc

/-! ## Ternaries, assignments and names -/

theorem goes_ternary (hinner : Coupled C p n (·.BodiesIn p) inner inner') (hw : cursor.Within (n + 1))
    (hc : C context other) :
    Goes C p n (·.BodiesIn p) (ternary inner ⟨cursor, context⟩) (ternary inner' ⟨cursor, other⟩) := by
  rw [ternary, ternary]
  refine goes_currentLine fun line => ?_
  refine (goes_reading (CursorM.reads_expectKeyword_succ hw) hc).bind fun _ cursor context other _ hw hc => ?_
  refine (goes_reading (CursorM.reads_expect hw) hc).bind fun _ cursor context other _ hw hc => ?_
  refine (goes_valueOf hinner (Nat.le_refl n) hw hc).bind fun condition cursor context other _ hw hc => ?_
  refine (goes_reading (CursorM.reads_expect hw) hc).bind fun _ cursor context other _ hw hc => ?_
  split
  · refine (goes_valueOf hinner (Nat.le_refl n) hw hc).bind fun item cursor context other hitem hw hc => ?_
    refine (goes_reading (CursorM.reads_expectKeyword hw) hc).bind fun _ cursor context other _ hw hc => ?_
    refine (goes_reading (CursorM.reads_skipExpression hw) hc).bind fun _ cursor context other _ hw hc => ?_
    exact goes_pure hitem hw hc
  · refine (goes_reading (CursorM.reads_skipExpression hw) hc).bind fun _ cursor context other _ hw hc => ?_
    refine (goes_reading (CursorM.reads_expectKeyword hw) hc).bind fun _ cursor context other _ hw hc => ?_
    exact goes_valueOf hinner (Nat.le_refl n) hw hc
  · exact goes_fail _ hc

theorem goes_assign (hC : executor.Couples executor' C p) {name : String} {binding : Binding} {item : Item}
    (hfind : context.scopes.lookup? name = some binding) (hitem : item.BodiesIn p) (hw : cursor.Within n)
    (hc : C context other) :
    Goes C p n (fun _ => True) (ofContext (ContextM.assign name item) ⟨cursor, context⟩)
      (ofContext (ContextM.assign name item) ⟨cursor, other⟩) := by
  obtain ⟨scopes, scopes', hassign, hassign', hc⟩ := hC.assign hc hfind hitem
  refine goes_acting ?_ hw
  rw [ContextM.assign, ContextM.assign, hassign, hassign']
  exact .ok trivial hc

/-- A name that was found bound is bound when the value is stored: nothing that is evaluated in between drops it. -/
theorem goes_assignment (hC : executor.Couples executor' C p) (hinner : Coupled C p n (·.BodiesIn p) inner inner')
    (hkeeps : Keeping Context.Persists inner) (hnext : cursor.advance.Within n)
    (hc : C context other) :
    Goes C p n (·.BodiesIn p) (assignment inner ⟨cursor, context⟩) (assignment inner' ⟨cursor, other⟩) := by
  rw [assignment, assignment]
  refine goes_currentLine fun line => ?_
  refine (goes_reading (CursorM.reads_next hnext) hc).bind fun token cursor context other _ hw hc => ?_
  refine (goes_reading (CursorM.reads_expect hw) hc).bind fun _ cursor context other _ hw hc => ?_
  rw [bind_get, bind_get]
  dsimp only
  rw [hC.lookup? hc]
  cases hfind : context.scopes.lookup? token.text with
  | none => exact goes_fail _ hc
  | some binding =>
    dsimp only
    split
    · refine (goes_valueOf hinner (Nat.le_refl n) hw hc).bindRun fun item cursor later other hrun hitem hw hc => ?_
      have hpersists : context.scopes.Persists later.scopes := ((keeping_valueOf hkeeps).ok hrun).context.scopes
      obtain ⟨found, hfound⟩ : ∃ found, later.scopes.lookup? token.text = some found := by
        rcases hpersists.lookup? token.text with ⟨hnone, -⟩ | ⟨_, found, -, hfound, -⟩
        · rw [hfind] at hnone
          cases hnone
        · exact ⟨found, hfound⟩
      refine (goes_assign hC hfound hitem hw hc).bind fun _ cursor context other _ hw hc => ?_
      exact goes_pure hitem hw hc
    · exact goes_fail _ hc

theorem goes_nameValue (hC : executor.Couples executor' C p) (hinner : Coupled C p n (·.BodiesIn p) inner inner')
    (hkeeps : Keeping Context.Persists inner) (hnext : cursor.advance.Within n)
    (hc : C context other) :
    Goes C p n (·.BodiesIn p) (nameValue inner ⟨cursor, context⟩) (nameValue inner' ⟨cursor, other⟩) := by
  rw [nameValue, nameValue, bind_get, bind_get]
  dsimp only
  rw [nameKind_eq hC hc, hC.lookup? hc]
  split
  · exact goes_failHere _ hc
  split
  · exact goes_assignment hC hinner hkeeps hnext hc
  · cases hfind : context.scopes.lookup? cursor.current.text with
    | none => exact goes_failHere _ hc
    | some binding =>
      have hbodies := hC.bodiesIn hc hfind
      refine (goes_reading (CursorM.reads_next hnext) hc).bind fun _ cursor context other _ hw hc => ?_
      exact goes_pure hbodies hw hc

theorem goes_thisValue (hC : executor.Couples executor' C p) (hnext : cursor.advance.Within n)
    (hc : C context other) :
    Goes C p n (·.BodiesIn p) (thisValue ⟨cursor, context⟩) (thisValue ⟨cursor, other⟩) := by
  rw [thisValue, bind_get, bind_get]
  dsimp only
  rw [hC.lookup? hc]
  cases hfind : context.scopes.lookup? "this" with
  | none => exact goes_failHere _ hc
  | some binding =>
    have hbodies := hC.bodiesIn hc hfind
    refine (goes_reading (CursorM.reads_next hnext) hc).bind fun _ cursor context other _ hw hc => ?_
    exact goes_pure hbodies hw hc

/-! ## Expressions -/

theorem bodiesIn_value {item : Item} (h : item.BodiesIn p) : (Element.value item).BodiesIn p := by
  rintro _ ⟨⟩
  exact h

/-- A parenthesis, an operator or a literal is no function, and everything else is out of place. -/
theorem plainElement_eq (p : List Token → Prop) (token : Token) :
    (∃ element : Element, plainElement token = pure element ∧ element.BodiesIn p) ∨
      ∃ kind, plainElement token = failHere kind := by
  unfold plainElement
  split
  · exact .inl ⟨_, rfl, fun _ h => nomatch h⟩
  · exact .inl ⟨_, rfl, fun _ h => nomatch h⟩
  · split
    · exact .inl ⟨_, rfl, fun _ h => nomatch h⟩
    · exact .inr ⟨_, rfl⟩
  · split
    · split
      · rename_i item hitem
        exact .inl ⟨_, rfl, bodiesIn_value (Item.bare_of_ofLiteral hitem).bodiesIn⟩
      · exact .inr ⟨_, rfl⟩
    · exact .inr ⟨_, rfl⟩

theorem goes_plainElement (token : Token) (hw : cursor.Within n) (hc : C context other) :
    Goes C p n (·.BodiesIn p) (plainElement token ⟨cursor, context⟩) (plainElement token ⟨cursor, other⟩) := by
  rcases plainElement_eq p token with ⟨element, heq, helement⟩ | ⟨kind, heq⟩
  · rw [heq]
    exact goes_pure helement hw hc
  · rw [heq]
    exact goes_failHere kind hc

theorem goes_value {walk walk' : WalkM Item} {s t : Walk} (h : Goes C p n (·.BodiesIn p) (walk s) (walk' t)) :
    Goes C p n (·.BodiesIn p) ((do return .value (← walk) : WalkM Element) s)
      ((do return .value (← walk') : WalkM Element) t) :=
  h.bind fun _ _ _ _ hitem hw hc => goes_pure (bodiesIn_value hitem) hw hc

/-- Every element takes a token at least. -/
theorem goes_element (hC : executor.Couples executor' C p) (hinner : Coupled C p n (·.BodiesIn p) inner inner')
    (hkeeps : Keeping Context.Persists inner) (hsteps : n ≤ steps) (hsteps' : n ≤ steps')
    (hw : cursor.Within (n + 1)) (hnext : cursor.advance.Within n) (hc : C context other) :
    Goes C p n (·.BodiesIn p) (element executor inner steps ⟨cursor, context⟩)
      (element executor' inner' steps' ⟨cursor, other⟩) := by
  rw [element, element, bind_get, bind_get]
  dsimp only
  refine Alike.ite (fun _ => goes_value (goes_callSite hC hinner hsteps hsteps' hnext hc)) fun _ => ?_
  refine Alike.ite (fun _ => goes_failHere _ hc) fun _ => ?_
  refine Alike.ite (fun _ => goes_failHere _ hc) fun _ => ?_
  refine Alike.ite (fun _ => goes_value (goes_ternary hinner hw hc)) fun _ => ?_
  refine Alike.ite (fun _ => ?_) fun _ => ?_
  · refine (goes_reading (CursorM.reads_lambda_succ hw) hc).bind fun function cursor context other hbody hw hc => ?_
    exact goes_pure (bodiesIn_value (Item.bodiesIn_function.2 (hC.captures _ hbody))) hw hc
  refine Alike.ite (fun _ => goes_failHere _ hc) fun _ => ?_
  refine Alike.ite (fun _ => goes_value (goes_nameValue hC hinner hkeeps hnext hc)) fun _ => ?_
  refine Alike.ite (fun _ => goes_value (goes_thisValue hC hnext hc)) fun _ => ?_
  refine (goes_plainElement cursor.current hw hc).bindRun fun element _ _ other hrun helement _ hc => ?_
  obtain ⟨hsame, -, -⟩ := plainElement_spec hrun
  cases hsame
  refine (goes_reading (CursorM.reads_next hnext) hc).bind fun _ cursor context other _ hw hc => ?_
  exact goes_pure helement hw hc

theorem coupled_expressionBy {elementsFrom elementsFrom' : Nat → WalkM (List Element)}
    (h : ∀ first, Coupled C p N (∀ element ∈ ·, element.BodiesIn p) (elementsFrom first) (elementsFrom' first)) :
    Coupled C p N (·.BodiesIn p) (expressionBy elementsFrom) (expressionBy elementsFrom') := by
  intro n hn cursor context other hw hc
  rw [expressionBy, expressionBy]
  refine (goes_reading (CursorM.reads_skipLineBreaks hw) hc).bind fun _ cursor context other _ hw hc => ?_
  rw [bind_get, bind_get]
  refine (h _ n hn cursor context other hw hc).bind fun elements cursor context other helements hw hc => ?_
  exact goes_pure helements hw hc

/-- An expression that goes on takes an element, and then the rest. -/
theorem goes_elements_inside (hC : executor.Couples executor' C p) {first : Nat} {waiting : List TokenKind}
    (hrest : ∀ first waiting, Coupled C p n (∀ element ∈ ·, element.BodiesIn p)
      (elements executor steps first waiting) (elements executor' steps' first waiting))
    (hsteps : n ≤ steps) (hsteps' : n ≤ steps') (hinside : cursor.boundary first waiting.isEmpty = .inside)
    (hw : cursor.Within (n + 1)) (hc : C context other) :
    Goes C p n (∀ element ∈ ·, element.BodiesIn p) (elements executor (steps + 1) first waiting ⟨cursor, context⟩)
      (elements executor' (steps' + 1) first waiting ⟨cursor, other⟩) := by
  rw [elements, elements, bind_get, bind_get]
  dsimp only
  rw [hinside]
  have hkeeps : Keeping Context.Persists (expressionBy (elements executor steps · [])) :=
    keeping_expressionBy fun first => keeping_elements hC.steady.respects first []
  refine (goes_element hC (coupled_expressionBy fun first => hrest first []) hkeeps hsteps hsteps' hw
    (hw.advance (Cursor.kind_ne_eof_of_inside hinside)) hc).bind fun element cursor context other helement hw hc => ?_
  refine (hrest _ _ n (Nat.le_refl n) cursor context other hw hc).bind
    fun elements cursor context other helements hw hc => ?_
  exact goes_pure (List.forall_mem_cons.2 ⟨helement, helements⟩) hw hc

/-- The elements of an expression, with two numbers of steps. -/
theorem coupled_elements (hC : executor.Couples executor' C p) (hsteps : N ≤ steps) (hsteps' : N ≤ steps')
    (first : Nat) (waiting : List TokenKind) :
    Coupled C p N (∀ element ∈ ·, element.BodiesIn p) (elements executor steps first waiting)
      (elements executor' steps' first waiting) := by
  -- an element takes a token, so the tokens to come are fewer than the steps that are left
  induction steps generalizing N steps' first waiting with
  | zero =>
    intro n hn cursor context other hw hc
    exact absurd hw.length (by omega)
  | succ steps ih =>
    intro n hn cursor context other hw hc
    have hpos : 0 < n := Nat.lt_of_le_of_lt (Nat.zero_le _) hw.length
    obtain ⟨n, rfl⟩ := Nat.exists_eq_add_one.2 hpos
    obtain ⟨steps', rfl⟩ : ∃ m, steps' = m + 1 := ⟨steps' - 1, by omega⟩
    cases hboundary : cursor.boundary first waiting.isEmpty with
    | ends =>
      rw [elements, elements, bind_get, bind_get]
      dsimp only
      rw [hboundary]
      exact goes_pure (by simp) hw hc
    | clash =>
      rw [elements, elements, bind_get, bind_get]
      dsimp only
      rw [hboundary]
      exact goes_reading CursorM.reads_unexpectedCurrent hc
    | inside =>
      have hrest : ∀ first waiting, Coupled C p n (∀ element ∈ ·, element.BodiesIn p)
          (elements executor steps first waiting) (elements executor' steps' first waiting) :=
        fun first waiting => ih (by omega) (by omega) first waiting
      exact (goes_elements_inside hC hrest (by omega) (by omega) hboundary hw hc).mono (Nat.le_succ n)

theorem coupled_expressionWithin (hC : executor.Couples executor' C p) (hsteps : N ≤ steps) (hsteps' : N ≤ steps') :
    Coupled C p N (·.BodiesIn p) (expressionWithin executor steps) (expressionWithin executor' steps') :=
  coupled_expressionBy fun first => coupled_elements hC hsteps hsteps' first []

theorem coupled_expression (hC : executor.Couples executor' C p) :
    Coupled C p N (·.BodiesIn p) (expression executor) (expression executor') := by
  intro n hn cursor context other hw hc
  rw [expression, expression, bounded, bounded, bind_get, bind_get]
  exact (coupled_expressionWithin hC (Nat.le_refl _) (Nat.le_refl _) _ (Nat.le_refl _) cursor context other
    ⟨hw.terminated, Nat.lt_succ_self _⟩ hc).mono hw.length

theorem expressionBy_start (elementsFrom : Nat → WalkM (List Element)) (cursor : Cursor) (context : Context) :
    expressionBy elementsFrom ⟨cursor, context⟩ =
      (do return ⟨← elementsFrom cursor.skipLineBreaks.position, cursor.skipLineBreaks.line⟩ : WalkM Expression)
        ⟨cursor.skipLineBreaks, context⟩ :=
  rfl

/-- An expression takes a token at least, unless it starts at the end of input. -/
theorem goes_expression_succ (hC : executor.Couples executor' C p) (hw : cursor.Within (n + 1))
    (hkind : cursor.current.kind ≠ .eof) (hnewline : cursor.current.kind ≠ .newline) (hc : C context other) :
    Goes C p n (·.BodiesIn p) (expression executor ⟨cursor, context⟩) (expression executor' ⟨cursor, other⟩) := by
  have hskip : cursor.skipLineBreaks = cursor := Cursor.skipFrom_of_not (by simpa using hnewline)
  rw [expression, expression, bounded, bounded, bind_get, bind_get, expressionWithin, expressionWithin,
    expressionBy_start, expressionBy_start, hskip]
  have hrest := coupled_elements hC (Nat.le_refl cursor.rest.length) (Nat.le_refl cursor.rest.length)
  have hstart : cursor.Within (cursor.rest.length + 1) := ⟨hw.terminated, Nat.lt_succ_self _⟩
  refine (goes_elements_inside hC hrest (Nat.le_refl _) (Nat.le_refl _) (Cursor.boundary_position hkind _) hstart
    hc).bind fun elements cursor context other helements hw' hc => ?_
  exact goes_pure helements (hw'.mono (Nat.le_of_lt_succ hw.length)) hc

end WalkM

end GradualScript
