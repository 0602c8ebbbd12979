import GradualScript.Program
import GradualScript.Proofs.Line.Calls
import GradualScript.Proofs.Scope.Levels
import GradualScript.Proofs.Value.Bodies

/-!
# Invariants of walks

Statements are run in contexts with a property `C`, on values with a property `q`, and fail with failures in `F`.

* `Walk.Over` : a walk over given tokens, in a context with the property;
* `Executor.Sustains` : what `C`, `q` and `F` have to allow;
* `meets_ternary`, `meets_assignment`, … : one lemma for each form, in terms of the readers of what is inside it;
* `meets_elements`, `meets_evaluation` : expressions;
* `meets_statements`, `Executor.meets_block_succ` : statements, and the bodies that they are in.
-/

set_option autoImplicit false

namespace GradualScript

open Token (lineBreaks)

/-- The walk is over these tokens, in a context with the property. -/
structure Walk.Over (tokens : List Token) (C : Context → Prop) (walk : Walk) : Prop where
  tokens : walk.cursor.tokens = tokens
  context : C walk.context

/-- The value that the element is, if it is one, has the property. -/
def Element.Holds (q : Item → Prop) (element : Element) : Prop :=
  ∀ item, element.item? = some item → q item

/-- The expression starts on a line of the tokens, and the values in it have the property. -/
structure Expression.Over (tokens : List Token) (q : Item → Prop) (expression : Expression) : Prop where
  line : expression.line ≤ lineBreaks tokens
  elements : ∀ element ∈ expression.elements, element.Holds q

/-- The property of contexts goes over every change of the scopes that brings in values with the property `q`. Those are
what names stand for and what is computed, read, returned by the host and returned by calls from the tokens. Errors at
lines of the tokens are in `F`, as are those of calls. -/
structure Executor.Sustains (executor : Executor) (tokens : List Token) (C : Context → Prop) (q : Item → Prop)
    (F : Failure → Prop) : Prop where
  fault : ∀ broken, F (.fault broken)
  error : ∀ (kind : ErrorKind) {line : Nat}, line ≤ lineBreaks tokens → F (.error ⟨kind, line⟩)
  bare : ∀ item : Item, item.Bare → q item
  lambda : ∀ function : Function, function.DeclaredIn tokens → q (.function function)
  lookup? : ∀ {context name binding}, C context → context.scopes.lookup? name = some binding → q binding.item
  host : ∀ {context name host items item}, C context → context.registry.function? name = some host →
    (∀ item ∈ items, q item) → host items = .ok item → q item
  constructor : ∀ {context name constructor items item}, C context →
    context.registry.constructor? name = some constructor → (∀ item ∈ items, q item) → constructor items = .ok item →
      q item
  invoke : ∀ {function items}, Token.hasCall tokens = true → q (.function function) → (∀ item ∈ items, q item) →
    Meets C F (fun result => q result.item) (function.invoke executor items)
  assign : ∀ {context name item scopes}, C context → q item → context.scopes.assign name item = .ok scopes →
    C { context with scopes }
  declare : ∀ {context binding scopes}, C context → q binding.item → context.scopes.declare binding = .ok scopes →
    C { context with scopes }
  push : ∀ {context}, C context → C { context with scopes := context.scopes.push }
  pop : ∀ {context scopes}, C context → context.scopes.pop = .ok scopes → C { context with scopes }

namespace WalkM

open CursorM (Placed closed_placed)

variable {α : Type} {executor : Executor} {tokens : List Token} {C : Context → Prop} {q : Item → Prop}
  {F : Failure → Prop} {V : α → Prop} {inner : WalkM Expression} {steps : Nat}

/-- The walk goes on over the tokens in contexts with the property. -/
abbrev Upholds (tokens : List Token) (C : Context → Prop) (F : Failure → Prop) (V : α → Prop) (m : WalkM α) : Prop :=
  Meets (Walk.Over tokens C) F V m

theorem meets_reading (hS : executor.Sustains tokens C q F) {m : CursorM α} (hm : Placed m)
    (hV : ∀ cursor a later, cursor.tokens = tokens → m cursor = .ok a later → V a) :
    Upholds tokens C F V (ofCursor m) := by
  intro walk hwalk
  unfold ofCursor
  cases hrun : m walk.cursor with
  | ok a cursor => exact ⟨hV _ a cursor hwalk.tokens hrun, (hm.1.ok hrun).tokens.trans hwalk.tokens, hwalk.context⟩
  | error failure cursor =>
    cases failure with
    | error error =>
      have hline := hm.line_le hrun
      rw [hwalk.tokens] at hline
      exact hS.error error.kind hline
    | fault broken => exact hS.fault broken

/-- A reading whose result does not matter. -/
theorem meets_read (hS : executor.Sustains tokens C q F) {m : CursorM α} (hm : Placed m) :
    Upholds tokens C F (fun _ => True) (ofCursor m) :=
  meets_reading hS hm fun _ _ _ _ _ => trivial

theorem meets_acting {m : ContextM α} (h : Meets C F V m) : Upholds tokens C F V (ofContext m) := by
  intro walk hwalk
  unfold ofContext
  cases hrun : m walk.context with
  | ok a context =>
    obtain ⟨hv, hcontext⟩ := h.ok hwalk.context hrun
    exact ⟨hv, hwalk.tokens, hcontext⟩
  | error failure context => exact h.error hwalk.context hrun

theorem meets_fail (hS : executor.Sustains tokens C q F) (kind : ErrorKind) {line : Nat}
    (hline : line ≤ lineBreaks tokens) : Upholds tokens C F V (fail ⟨kind, line⟩) :=
  Meets.throw (hS.error kind hline)

theorem meets_failHere (hS : executor.Sustains tokens C q F) (kind : ErrorKind) :
    Upholds tokens C F V (failHere kind) :=
  meets_reading hS (closed_placed.fail kind) fun _ _ _ _ h => nomatch h

theorem meets_unexpectedCurrent (hS : executor.Sustains tokens C q F) :
    Upholds tokens C F V (ofCursor CursorM.unexpectedCurrent) :=
  meets_reading hS closed_placed.unexpectedCurrent fun _ _ _ _ h => nomatch h

theorem meets_outOfSteps (hS : executor.Sustains tokens C q F) : Upholds tokens C F V outOfSteps :=
  Meets.throw (hS.fault _)

theorem meets_current : Upholds tokens C F (fun _ => True) current := fun _ hwalk => ⟨trivial, hwalk⟩

theorem meets_currentLine : Upholds tokens C F (· ≤ lineBreaks tokens) currentLine := by
  intro walk hwalk
  refine ⟨?_, hwalk⟩
  rw [← hwalk.tokens]
  exact walk.cursor.line_le_lineBreaks

/-! ## Calls -/

theorem meets_calculate (hS : executor.Sustains tokens C q F) {expression : Expression} (h : expression.Over tokens q) :
    Upholds tokens C F q (calculate expression) := by
  unfold calculate Expression.calculate
  cases hvalue : Expression.value expression.elements with
  | ok item => exact Meets.pure (holds_of_value hS.bare h.elements hvalue)
  | error kind => exact meets_fail hS kind h.line

theorem meets_valueOf (hS : executor.Sustains tokens C q F) (h : Upholds tokens C F (·.Over tokens q) inner) :
    Upholds tokens C F q (valueOf inner) :=
  h.bind fun _ => meets_calculate hS

theorem meets_argumentList (hS : executor.Sustains tokens C q F) (h : Upholds tokens C F (·.Over tokens q) inner) :
    Upholds tokens C F (∀ item ∈ ·, q item) (argumentList inner steps) := by
  induction steps with
  | zero => exact meets_outOfSteps hS
  | succ steps ih =>
    refine (meets_valueOf hS h).bind fun item hitem => (meets_read hS closed_placed.currentKind).bind fun kind _ => ?_
    split
    · refine (meets_read hS closed_placed.advance).bind fun _ _ => ih.bind fun items hitems => ?_
      exact Meets.pure (List.forall_mem_cons.2 ⟨hitem, hitems⟩)
    · exact (meets_read hS closed_placed.advance).bind fun _ _ => Meets.pure (List.forall_mem_singleton.2 hitem)
    · exact meets_unexpectedCurrent hS

theorem meets_arguments (hS : executor.Sustains tokens C q F) (h : Upholds tokens C F (·.Over tokens q) inner) :
    Upholds tokens C F (∀ item ∈ ·, q item) (arguments inner steps) := by
  refine (meets_read hS (closed_placed.expect _)).bind fun _ _ => ?_
  refine (meets_read hS closed_placed.currentKind).bind fun kind _ => ?_
  split
  · exact (meets_read hS closed_placed.advance).bind fun _ _ => Meets.pure (List.forall_mem_nil _)
  · exact meets_argumentList hS h

theorem meets_hostCall (hS : executor.Sustains tokens C q F) {function : HostFunction} {items : List Item} {line : Nat}
    (hfunction : ∀ item, function items = .ok item → q item) (hline : line ≤ lineBreaks tokens) :
    Upholds tokens C F (fun result => q result.item) (hostCall function items line) := by
  unfold hostCall
  split
  · exact Meets.pure (hS.bare _ Item.bare_unit)
  · rename_i item _ hresult
    exact Meets.pure (hfunction item hresult)
  · exact meets_fail hS _ hline

theorem meets_functionCall (hS : executor.Sustains tokens C q F) (hcall : Token.hasCall tokens = true)
    (h : Upholds tokens C F (·.Over tokens q) inner) :
    Upholds tokens C F (fun result => q result.item) (functionCall executor inner steps) := by
  refine meets_currentLine.bind fun line hline => (meets_read hS closed_placed.advance).bind fun token _ => ?_
  refine (meets_arguments hS h).bind fun items hitems => Meets.get.bind fun walk hwalk => ?_
  dsimp only
  cases hhost : walk.context.registry.function? token.text with
  | some host => exact meets_hostCall hS (fun item => hS.host hwalk.context hhost hitems) hline
  | none =>
    dsimp only
    split
    · rename_i function hfunction
      obtain ⟨binding, hfind, hitem⟩ := Option.map_eq_some_iff.1 hfunction
      have hq := hS.lookup? hwalk.context hfind
      rw [hitem] at hq
      exact meets_acting (hS.invoke hcall hq hitems)
    · exact meets_fail hS _ hline

theorem meets_constructorCall (hS : executor.Sustains tokens C q F) (h : Upholds tokens C F (·.Over tokens q) inner) :
    Upholds tokens C F q (constructorCall inner steps) := by
  refine meets_currentLine.bind fun line hline => (meets_read hS closed_placed.advance).bind fun token _ => ?_
  refine (meets_arguments hS h).bind fun items hitems => Meets.get.bind fun walk hwalk => ?_
  cases hfind : walk.context.registry.constructor? token.text with
  | none => exact meets_fail hS _ hline
  | some constructor =>
    dsimp only
    cases hresult : constructor items with
    | ok item => exact Meets.pure (hS.constructor hwalk.context hfind hitems hresult)
    | error kind => exact meets_fail hS kind hline

theorem meets_callSite (hS : executor.Sustains tokens C q F) (hcall : Token.hasCall tokens = true)
    (h : Upholds tokens C F (·.Over tokens q) inner) : Upholds tokens C F q (callSite executor inner steps) := by
  refine meets_current.bind fun token _ => Meets.get.bind fun walk _ => ?_
  dsimp only
  generalize (if token.kind = .name then walk.context.nameKind token.text else NameKind.undeclared) = kind
  cases kind with
  | function => exact (meets_functionCall hS hcall h).bind fun result hresult => Meets.pure hresult
  | constructor => exact meets_constructorCall hS h
  | value => exact meets_failHere hS _
  | undeclared => exact meets_failHere hS _

/-! ## Ternaries, assignments and names -/

theorem meets_ternary (hS : executor.Sustains tokens C q F) (h : Upholds tokens C F (·.Over tokens q) inner) :
    Upholds tokens C F q (ternary inner) := by
  refine meets_currentLine.bind fun line hline => (meets_read hS (closed_placed.expectKeyword _)).bind fun _ _ => ?_
  refine (meets_read hS (closed_placed.expect _)).bind fun _ _ => (meets_valueOf hS h).bind fun condition _ => ?_
  refine (meets_read hS (closed_placed.expect _)).bind fun _ _ => ?_
  split
  · refine (meets_valueOf hS h).bind fun item hitem => ?_
    refine (meets_read hS (closed_placed.expectKeyword _)).bind fun _ _ => ?_
    exact (meets_read hS closed_placed.skipExpression).bind fun _ _ => Meets.pure hitem
  · refine (meets_read hS closed_placed.skipExpression).bind fun _ _ => ?_
    exact (meets_read hS (closed_placed.expectKeyword _)).bind fun _ _ => meets_valueOf hS h
  · exact meets_fail hS _ hline

theorem meets_assign (hS : executor.Sustains tokens C q F) {name : String} {item : Item} (hitem : q item) :
    Meets C F (fun _ => True) (ContextM.assign name item) := by
  intro context hcontext
  unfold ContextM.assign
  cases hassign : context.scopes.assign name item with
  | ok scopes => exact ⟨trivial, hS.assign hcontext hitem hassign⟩
  | error broken => exact hS.fault broken

theorem meets_assignment (hS : executor.Sustains tokens C q F) (h : Upholds tokens C F (·.Over tokens q) inner) :
    Upholds tokens C F q (assignment inner) := by
  refine meets_currentLine.bind fun line hline => (meets_read hS closed_placed.advance).bind fun token _ => ?_
  refine (meets_read hS (closed_placed.expect _)).bind fun _ _ => Meets.get.bind fun walk _ => ?_
  split
  · exact meets_fail hS _ hline
  · split
    · refine (meets_valueOf hS h).bind fun item hitem => ?_
      exact (meets_acting (meets_assign hS hitem)).bind fun _ _ => Meets.pure hitem
    · exact meets_fail hS _ hline

theorem meets_nameValue (hS : executor.Sustains tokens C q F) (h : Upholds tokens C F (·.Over tokens q) inner) :
    Upholds tokens C F q (nameValue inner) := by
  refine Meets.get.bind fun walk hwalk => ?_
  dsimp only
  split
  · exact meets_failHere hS _
  · split
    · exact meets_assignment hS h
    · split
      · rename_i binding hfind
        have hitem := hS.lookup? hwalk.context hfind
        exact (meets_read hS closed_placed.advance).bind fun _ _ => Meets.pure hitem
      · exact meets_failHere hS _

theorem meets_thisValue (hS : executor.Sustains tokens C q F) : Upholds tokens C F q thisValue := by
  refine Meets.get.bind fun walk hwalk => ?_
  split
  · rename_i binding hfind
    have hitem := hS.lookup? hwalk.context hfind
    exact (meets_read hS closed_placed.advance).bind fun _ _ => Meets.pure hitem
  · exact meets_failHere hS _

/-! ## Expressions -/

theorem holds_value {item : Item} (h : q item) : (Element.value item).Holds q := by
  rintro _ ⟨⟩
  exact h

theorem meets_value {m : WalkM Item} (h : Upholds tokens C F q m) :
    Upholds tokens C F (Element.Holds q) (do return Element.value (← m)) :=
  h.bind fun _ hitem => Meets.pure (holds_value hitem)

theorem meets_plainElement (hS : executor.Sustains tokens C q F) (token : Token) :
    Upholds tokens C F (·.Holds q) (plainElement token) := by
  unfold plainElement
  split
  · exact Meets.pure fun _ h => nomatch h
  · exact Meets.pure fun _ h => nomatch h
  · split
    · exact Meets.pure fun _ h => nomatch h
    · exact meets_failHere hS _
  · split
    · split
      · rename_i item hliteral
        exact Meets.pure (holds_value (hS.bare item (Item.bare_of_ofLiteral hliteral)))
      · exact meets_failHere hS _
    · exact meets_failHere hS _

theorem meets_lambda (hS : executor.Sustains tokens C q F) :
    Upholds tokens C F (fun function => q (.function function)) (ofCursor CursorM.lambda) :=
  meets_reading hS closed_placed.lambda fun cursor function later htokens h =>
    hS.lambda function ⟨cursor, later, htokens, h⟩

theorem meets_element (hS : executor.Sustains tokens C q F) (h : Upholds tokens C F (·.Over tokens q) inner) :
    Upholds tokens C F (·.Holds q) (element executor inner steps) := by
  refine Meets.get.bind fun walk hwalk => ?_
  dsimp only
  split
  · rename_i hobject
    rw [Bool.and_eq_true, decide_eq_true_eq] at hobject
    have hcall := Cursor.hasCall_tokens hobject.1 hobject.2
    rw [hwalk.tokens] at hcall
    exact meets_value (meets_callSite hS hcall h)
  · split
    · exact meets_failHere hS _
    · split
      · exact meets_failHere hS _
      · split
        · exact meets_value (meets_ternary hS h)
        · split
          · exact (meets_lambda hS).bind fun function hfunction => Meets.pure (holds_value hfunction)
          · split
            · exact meets_failHere hS _
            · split
              · exact meets_value (meets_nameValue hS h)
              · split
                · exact meets_value (meets_thisValue hS)
                · refine (meets_plainElement hS _).bind fun _ hplain => ?_
                  exact (meets_read hS closed_placed.advance).bind fun _ _ => Meets.pure hplain

theorem meets_expressionBy (hS : executor.Sustains tokens C q F) {elementsFrom : Nat → WalkM (List Element)}
    (h : ∀ first, Upholds tokens C F (∀ element ∈ ·, element.Holds q) (elementsFrom first)) :
    Upholds tokens C F (·.Over tokens q) (expressionBy elementsFrom) := by
  refine (meets_read hS closed_placed.skipLineBreaks).bind fun _ _ => Meets.get.bind fun walk hwalk => ?_
  refine (h _).bind fun elements helements => Meets.pure ⟨?_, helements⟩
  rw [← hwalk.tokens]
  exact walk.cursor.line_le_lineBreaks

theorem meets_elements (hS : executor.Sustains tokens C q F) (first : Nat) (waiting : List TokenKind) :
    Upholds tokens C F (∀ element ∈ ·, element.Holds q) (elements executor steps first waiting) := by
  induction steps generalizing first waiting with
  | zero => exact meets_outOfSteps hS
  | succ steps ih =>
    refine Meets.get.bind fun walk _ => ?_
    dsimp only
    split
    · exact Meets.pure (List.forall_mem_nil _)
    · exact meets_unexpectedCurrent hS
    · refine (meets_element hS (meets_expressionBy hS fun first => ih first [])).bind fun element helement => ?_
      exact (ih _ _).bind fun others hothers => Meets.pure (List.forall_mem_cons.2 ⟨helement, hothers⟩)

theorem meets_evaluation (hS : executor.Sustains tokens C q F) : Upholds tokens C F q (evaluation executor) := by
  refine meets_valueOf hS (Meets.get.bind fun walk _ => ?_)
  exact meets_expressionBy hS fun first => meets_elements hS first []

/-! ## Statements -/

theorem meets_declaredTypes (hS : executor.Sustains tokens C q F) :
    Upholds tokens C F (fun _ => True) declaredTypes := by
  refine (meets_read hS closed_placed.currentKind).bind fun kind _ => ?_
  split
  · refine (meets_read hS closed_placed.advance).bind fun _ _ => ?_
    exact (meets_read hS (closed_placed.expect _)).bind fun _ _ => Meets.pure trivial
  · exact Meets.pure trivial

theorem meets_declare (hS : executor.Sustains tokens C q F) {binding : Binding} {line : Nat} (hitem : q binding.item)
    (hline : line ≤ lineBreaks tokens) : Meets C F (fun _ => True) (ContextM.declare binding line) := by
  intro context hcontext
  unfold ContextM.declare
  cases hdeclare : context.scopes.declare binding with
  | ok scopes => exact ⟨trivial, hS.declare hcontext hitem hdeclare⟩
  | error kind => exact hS.error kind hline

theorem meets_declareAll (hS : executor.Sustains tokens C q F) {bindings : List Binding} {line : Nat}
    (hitems : ∀ binding ∈ bindings, q binding.item) (hline : line ≤ lineBreaks tokens) :
    Meets C F (fun _ => True) (ContextM.declareAll line bindings) := by
  induction bindings with
  | nil => exact Meets.pure trivial
  | cons binding rest ih =>
    obtain ⟨hitem, hrest⟩ := List.forall_mem_cons.1 hitems
    exact (meets_declare hS hitem hline).bind fun _ _ => ih hrest

theorem meets_popScope (hS : executor.Sustains tokens C q F) : Meets C F (fun _ => True) ContextM.popScope := by
  intro context hcontext
  unfold ContextM.popScope
  cases hpop : context.scopes.pop with
  | ok scopes => exact ⟨trivial, hS.pop hcontext hpop⟩
  | error broken => exact hS.fault broken

theorem error_of_popScope (hS : executor.Sustains tokens C q F) (context : Context) (failure : Failure)
    (later : Context) (h : ContextM.popScope context = .error failure later) : F failure := by
  unfold ContextM.popScope at h
  split at h
  · cases h
  · cases h
    exact hS.fault _

theorem error_of_walkPopScope (hS : executor.Sustains tokens C q F) (walk : Walk) (failure : Failure) (later : Walk)
    (h : ofContext ContextM.popScope walk = .error failure later) : F failure := by
  unfold ofContext at h
  split at h
  · cases h
  · rename_i hpop
    cases h
    exact error_of_popScope hS _ _ _ hpop

theorem meets_inScope (hS : executor.Sustains tokens C q F) {body : WalkM α} (h : Upholds tokens C F V body) :
    Upholds tokens C F V (inScope body) := by
  intro walk hwalk
  have hinside : Walk.Over tokens C { walk with context.scopes := walk.context.scopes.push } :=
    ⟨hwalk.tokens, hS.push hwalk.context⟩
  unfold inScope
  cases hbody : body { walk with context.scopes := walk.context.scopes.push } with
  | ok a after =>
    obtain ⟨hv, hafter⟩ := h.ok hinside hbody
    exact (meets_acting (meets_popScope hS)).bind (fun _ _ => Meets.pure hv) after hafter
  | error failure after =>
    obtain ⟨other, last, hrun, hother⟩ :=
      exists_throw_after (α := α) (error_of_walkPopScope hS) (h.error hinside hbody) after
    dsimp only
    rw [hrun]
    exact hother

theorem meets_declaration (hS : executor.Sustains tokens C q F) :
    Upholds tokens C F (fun outcome => q outcome.item) (declaration executor) := by
  refine (meets_read hS closed_placed.advance).bind fun _ _ => meets_currentLine.bind fun line hline => ?_
  refine (meets_read hS (closed_placed.expect _)).bind fun _ _ => (meets_declaredTypes hS).bind fun types _ => ?_
  refine (meets_read hS (closed_placed.expect _)).bind fun _ _ => (meets_evaluation hS).bind fun item hitem => ?_
  split
  · exact (meets_acting (meets_declare hS hitem hline)).bind fun _ _ => Meets.pure (hS.bare _ Item.bare_unit)
  · exact meets_fail hS _ hline

theorem meets_returnStatement (hS : executor.Sustains tokens C q F) :
    Upholds tokens C F (fun outcome => q outcome.item) (returnStatement executor) := by
  refine (meets_read hS closed_placed.advance).bind fun _ _ => ?_
  refine (meets_read hS closed_placed.currentKind).bind fun kind _ => ?_
  split
  · exact Meets.pure (hS.bare _ Item.bare_unit)
  · exact (meets_evaluation hS).bind fun item hitem => Meets.pure hitem

theorem meets_nestedBlock (hS : executor.Sustains tokens C q F) {nested : WalkM Outcome}
    (h : Upholds tokens C F (fun outcome => q outcome.item) nested) :
    Upholds tokens C F (fun outcome => q outcome.item) (nestedBlock nested) := by
  refine (meets_read hS closed_placed.advance).bind fun _ _ => (meets_inScope hS h).bind fun outcome houtcome => ?_
  cases outcome with
  | completed item => exact (meets_read hS (closed_placed.expect _)).bind fun _ _ => Meets.pure houtcome
  | returned item => exact Meets.pure houtcome

theorem meets_statement (hS : executor.Sustains tokens C q F) {nested : WalkM Outcome}
    (h : Upholds tokens C F (fun outcome => q outcome.item) nested) :
    Upholds tokens C F (fun outcome => q outcome.item) (statement executor nested) := by
  refine meets_current.bind fun token _ => ?_
  split
  · exact meets_declaration hS
  · split
    · exact meets_returnStatement hS
    · split
      · exact meets_nestedBlock hS h
      · exact (meets_evaluation hS).bind fun item hitem => Meets.pure hitem

theorem meets_statementEnd (hS : executor.Sustains tokens C q F) :
    Upholds tokens C F (fun _ => True) statementEnd := by
  refine Meets.get.bind fun walk _ => ?_
  dsimp only
  split
  · exact Meets.pure trivial
  · exact meets_unexpectedCurrent hS

theorem meets_statementsFrom (hS : executor.Sustains tokens C q F) (stop : TokenKind) {last : Item} (hlast : q last) :
    Upholds tokens C F (fun outcome => q outcome.item) (statementsFrom executor steps stop last) := by
  induction steps generalizing stop last with
  | zero => exact meets_outOfSteps hS
  | succ steps ih =>
    refine (meets_read hS closed_placed.skipStatementBreaks).bind fun _ _ => ?_
    refine (meets_read hS closed_placed.currentKind).bind fun kind _ => ?_
    split
    · exact Meets.pure hlast
    · split
      · exact meets_failHere hS _
      · have hnested := ih (.closing .curly) (hS.bare _ Item.bare_unit)
        refine (meets_statement hS hnested).bind fun outcome houtcome => ?_
        cases outcome with
        | returned item => exact Meets.pure houtcome
        | completed item => exact (meets_statementEnd hS).bind fun _ _ => ih stop houtcome

theorem meets_statements (hS : executor.Sustains tokens C q F) :
    Upholds tokens C F (fun outcome => q outcome.item) (statements executor) :=
  Meets.get.bind fun _ _ => meets_statementsFrom hS .eof (hS.bare _ Item.bare_unit)

end WalkM

namespace ContextM

variable {α : Type} {executor : Executor} {tokens : List Token} {C : Context → Prop} {q : Item → Prop}
  {F : Failure → Prop} {V : α → Prop}

theorem meets_inScope (hS : executor.Sustains tokens C q F) {body : ContextM α} (h : Meets C F V body) :
    Meets C F V (inScope body) := by
  intro context hcontext
  unfold inScope
  cases hbody : body { context with scopes := context.scopes.push } with
  | ok a after =>
    obtain ⟨hv, hafter⟩ := h.ok (hS.push hcontext) hbody
    exact (WalkM.meets_popScope hS).bind (fun _ _ => Meets.pure hv) after hafter
  | error failure after =>
    obtain ⟨other, last, hrun, hother⟩ :=
      exists_throw_after (α := α) (WalkM.error_of_popScope hS) (h.error (hS.push hcontext) hbody) after
    dsimp only
    rw [hrun]
    exact hother

theorem meets_walk {cursor : Cursor} {body : WalkM α} (htokens : cursor.tokens = tokens)
    (h : WalkM.Upholds tokens C F V body) : Meets C F V (ContextM.walk cursor body) := by
  intro context hcontext
  have hwalk : Walk.Over tokens C ⟨cursor, context⟩ := ⟨htokens, hcontext⟩
  unfold ContextM.walk
  cases hbody : body ⟨cursor, context⟩ with
  | ok a after =>
    obtain ⟨hv, hafter⟩ := h.ok hwalk hbody
    exact ⟨hv, hafter.context⟩
  | error failure after => exact h.error hwalk hbody

end ContextM

/-- Tokens are run as statements, with values of the property bound before. -/
theorem Executor.meets_block_succ {levels : Nat} {tokens : List Token} {C : Context → Prop} {q : Item → Prop}
    {F : Failure → Prop} (hS : (Executor.block levels).Sustains tokens C q F) {bindings : List Binding}
    (hitems : ∀ binding ∈ bindings, q binding.item) :
    Meets C F (fun outcome => q outcome.item) (Executor.block (levels + 1) tokens bindings) := by
  refine ContextM.meets_inScope hS ((WalkM.meets_declareAll hS hitems (Nat.zero_le _)).bind fun _ _ => ?_)
  cases hcursor : Cursor.ofTokens? tokens with
  | none => exact Meets.throw (hS.fault _)
  | some cursor =>
    exact ContextM.meets_walk (Cursor.tokens_of_ofTokens? hcursor) (WalkM.meets_statements hS)

end GradualScript
