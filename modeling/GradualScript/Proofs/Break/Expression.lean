import GradualScript.Proofs.Break.Cursor
import GradualScript.Proofs.Walk.Spacing

/-!
# Expressions with further line breaks

An expression that has a value has the same value with further line breaks in it, and leaves the same context behind.

* `WalkM.Mirror` : two walks from cursors on the same token, in one context;
* `mirror_callSite`, `mirror_ternary`, `mirror_assignment`, … : the forms of elements;
* `mirror_elements`, `mirror_evaluation` : whole expressions.
-/

set_option autoImplicit false

namespace GradualScript

open Cursor (Slack Paced)

/-- Two walks on the same token and in one context. -/
structure Walk.Slack (walk other : Walk) : Prop where
  cursor : walk.cursor.Slack other.cursor
  context : other.context = walk.context

namespace WalkM

open CursorM (currentKind SameContent)

/-- Two walks from cursors on the same token, in one context. -/
abbrev Mirror {α α' : Type} (V : α → α' → Prop) (result : EStateM.Result Failure Walk α)
    (other : EStateM.Result Failure Walk α') : Prop :=
  Mirrors Walk.Slack V result other

variable {α α' β β' : Type} {V : α → α' → Prop} {W : β → β' → Prop} {cursor other : Cursor} {context : Context}

namespace Mirror

theorem bindRun {m : WalkM α} {m' : WalkM α'} {f : α → WalkM β} {f' : α' → WalkM β'}
    (h : Mirror V (m ⟨cursor, context⟩) (m' ⟨other, context⟩))
    (hf : ∀ a a' cursor' other' context', m ⟨cursor, context⟩ = .ok a ⟨cursor', context'⟩ →
      m' ⟨other, context⟩ = .ok a' ⟨other', context'⟩ → V a a' → cursor'.Slack other' →
      Mirror W (f a ⟨cursor', context'⟩) (f' a' ⟨other', context'⟩)) :
    Mirror W ((m >>= f) ⟨cursor, context⟩) ((m' >>= f') ⟨other, context⟩) := by
  refine Mirrors.bindRun h fun a a' walk walk' hrun hrun' hv hs => ?_
  obtain ⟨cursor', context'⟩ := walk
  obtain ⟨other', _⟩ := walk'
  obtain ⟨hs, rfl⟩ := hs
  exact hf a a' cursor' other' _ hrun hrun' hv hs

theorem bind {m : WalkM α} {m' : WalkM α'} {f : α → WalkM β} {f' : α' → WalkM β'}
    (h : Mirror V (m ⟨cursor, context⟩) (m' ⟨other, context⟩))
    (hf : ∀ a a' cursor' other' context', V a a' → cursor'.Slack other' →
      Mirror W (f a ⟨cursor', context'⟩) (f' a' ⟨other', context'⟩)) :
    Mirror W ((m >>= f) ⟨cursor, context⟩) ((m' >>= f') ⟨other, context⟩) :=
  h.bindRun fun a a' cursor' other' context' _ _ => hf a a' cursor' other' context'

end Mirror

theorem mirror_pure {a : α} {a' : α'} (hV : V a a') (h : cursor.Slack other) :
    Mirror V ((pure a : WalkM α) ⟨cursor, context⟩) ((pure a' : WalkM α') ⟨other, context⟩) :=
  .ok hV ⟨h, rfl⟩

theorem mirror_reading {m : CursorM α} {m' : CursorM α'} (h : CursorM.Mirror V (m cursor) (m' other)) :
    Mirror V (ofCursor m ⟨cursor, context⟩) (ofCursor m' ⟨other, context⟩) := by
  unfold ofCursor
  dsimp only
  cases hm : m cursor with
  | ok a cursor' =>
    obtain ⟨a', other', hm', hv, hs⟩ := h a cursor' hm
    rw [hm']
    exact .ok hv ⟨hs, rfl⟩
  | error failure cursor' => exact .error

/-- What is done in the context goes the same way, since there is one. -/
theorem mirror_acting (m : ContextM α) (h : cursor.Slack other) :
    Mirror Eq (ofContext m ⟨cursor, context⟩) (ofContext m ⟨other, context⟩) := by
  unfold ofContext
  dsimp only
  cases m context with
  | ok a context => exact .ok rfl ⟨h, rfl⟩
  | error failure context => exact .error

theorem mirror_currentKind {f : TokenKind → WalkM β} {f' : TokenKind → WalkM β'} (h : cursor.Slack other)
    (hf : ∀ kind, cursor.current.kind = kind → Mirror W (f kind ⟨cursor, context⟩) (f' kind ⟨other, context⟩)) :
    Mirror W ((ofCursor currentKind >>= f) ⟨cursor, context⟩) ((ofCursor currentKind >>= f') ⟨other, context⟩) := by
  change Mirror W (f cursor.current.kind ⟨cursor, context⟩) (f' other.current.kind ⟨other, context⟩)
  rw [h.kind]
  exact hf _ rfl

theorem mirror_current {f : Token → WalkM β} {f' : Token → WalkM β'}
    (hf : Mirror W (f cursor.current ⟨cursor, context⟩) (f' other.current ⟨other, context⟩)) :
    Mirror W ((current >>= f) ⟨cursor, context⟩) ((current >>= f') ⟨other, context⟩) :=
  hf

/-- A line is only looked at for an error. -/
theorem mirror_currentLine {f : Nat → WalkM β} {f' : Nat → WalkM β'}
    (hf : ∀ line line', Mirror W (f line ⟨cursor, context⟩) (f' line' ⟨other, context⟩)) :
    Mirror W ((currentLine >>= f) ⟨cursor, context⟩) ((currentLine >>= f') ⟨other, context⟩) :=
  hf _ _

/-! ## Values -/

/-- The expressions have the same elements. They may be on different lines. -/
def SameElements (expression expression' : Expression) : Prop :=
  expression'.elements = expression.elements

theorem mirror_calculate {expression expression' : Expression} (hsame : SameElements expression expression')
    (h : cursor.Slack other) :
    Mirror Eq (calculate expression ⟨cursor, context⟩) (calculate expression' ⟨other, context⟩) := by
  rw [calculate, calculate, Expression.calculate, Expression.calculate, hsame]
  cases Expression.value expression.elements with
  | ok item => exact mirror_pure rfl h
  | error kind => exact .error

/-- The walks read expressions with the same elements, whatever the cursors and the context. -/
def Mirroring (inner inner' : WalkM Expression) : Prop :=
  ∀ cursor other context, cursor.Slack other →
    Mirror SameElements (inner ⟨cursor, context⟩) (inner' ⟨other, context⟩)

variable {executor : Executor} {inner inner' : WalkM Expression} {steps steps' : Nat}

theorem mirror_valueOf (hinner : Mirroring inner inner') (h : cursor.Slack other) :
    Mirror Eq (valueOf inner ⟨cursor, context⟩) (valueOf inner' ⟨other, context⟩) := by
  rw [valueOf, valueOf]
  exact Mirror.bind (hinner _ _ _ h) fun _ _ _ _ _ hsame h => mirror_calculate hsame h

/-! ## Calls -/

theorem mirror_argumentList (hinner : Mirroring inner inner') (hle : steps ≤ steps') (h : cursor.Slack other) :
    Mirror Eq (argumentList inner steps ⟨cursor, context⟩) (argumentList inner' steps' ⟨other, context⟩) := by
  induction steps generalizing steps' cursor other context with
  | zero => exact .error
  | succ steps ih =>
    obtain ⟨steps', rfl⟩ : ∃ n, steps' = n + 1 := ⟨steps' - 1, by omega⟩
    rw [argumentList, argumentList]
    refine (mirror_valueOf hinner h).bind fun item _ cursor other context hitem h => ?_
    subst hitem
    refine mirror_currentKind h fun kind _ => ?_
    split
    · refine (mirror_reading (CursorM.mirror_advance h)).bind fun _ _ cursor other context _ h => ?_
      refine (ih (by omega) h).bind fun items _ cursor other context hitems h => ?_
      exact mirror_pure (congrArg (item :: ·) hitems) h
    · refine (mirror_reading (CursorM.mirror_advance h)).bind fun _ _ cursor other context _ h => ?_
      exact mirror_pure rfl h
    · exact .error

theorem mirror_arguments (hinner : Mirroring inner inner') (hle : steps ≤ steps') (h : cursor.Slack other) :
    Mirror Eq (arguments inner steps ⟨cursor, context⟩) (arguments inner' steps' ⟨other, context⟩) := by
  rw [arguments, arguments]
  refine (mirror_reading (CursorM.mirror_expect _ h)).bind fun _ _ cursor other context _ h => ?_
  refine mirror_currentKind h fun kind _ => ?_
  refine Mirrors.ite (fun _ => ?_) fun _ => mirror_argumentList hinner hle h
  exact (mirror_reading (CursorM.mirror_advance h)).bind fun _ _ cursor other context _ h => mirror_pure rfl h

theorem mirror_hostCall (function : HostFunction) (items : List Item) (line line' : Nat) (h : cursor.Slack other) :
    Mirror Eq (hostCall function items line ⟨cursor, context⟩) (hostCall function items line' ⟨other, context⟩) := by
  unfold hostCall
  generalize function items = result
  split
  · exact mirror_pure rfl h
  · exact mirror_pure rfl h
  · exact .error

theorem mirror_functionCall (hinner : Mirroring inner inner') (hle : steps ≤ steps') (h : cursor.Slack other) :
    Mirror Eq (functionCall executor inner steps ⟨cursor, context⟩)
      (functionCall executor inner' steps' ⟨other, context⟩) := by
  rw [functionCall, functionCall]
  refine mirror_currentLine fun line line' => ?_
  refine (mirror_reading (CursorM.mirror_advance h)).bind fun token token' cursor other context htoken h => ?_
  rw [Token.text_of_content htoken]
  refine (mirror_arguments hinner hle h).bind fun items _ cursor other context hitems h => ?_
  subst hitems
  rw [bind_get, bind_get]
  dsimp only
  cases context.registry.function? token.text with
  | some function => exact mirror_hostCall function items line line' h
  | none =>
    generalize (context.scopes.lookup? token.text).map Binding.item = found
    dsimp only
    split
    · exact mirror_acting _ h
    · exact .error

theorem mirror_constructorCall (hinner : Mirroring inner inner') (hle : steps ≤ steps') (h : cursor.Slack other) :
    Mirror Eq (constructorCall inner steps ⟨cursor, context⟩) (constructorCall inner' steps' ⟨other, context⟩) := by
  rw [constructorCall, constructorCall]
  refine mirror_currentLine fun line line' => ?_
  refine (mirror_reading (CursorM.mirror_advance h)).bind fun token token' cursor other context htoken h => ?_
  rw [Token.text_of_content htoken]
  refine (mirror_arguments hinner hle h).bind fun items _ cursor other context hitems h => ?_
  subst hitems
  rw [bind_get, bind_get]
  dsimp only
  cases context.registry.constructor? token.text with
  | none => exact .error
  | some constructor =>
    dsimp only
    cases constructor items with
    | ok item => exact mirror_pure rfl h
    | error kind => exact .error

theorem mirror_callSite (hinner : Mirroring inner inner') (hle : steps ≤ steps') (h : cursor.Slack other) :
    Mirror Eq (callSite executor inner steps ⟨cursor, context⟩) (callSite executor inner' steps' ⟨other, context⟩) := by
  rw [callSite, callSite]
  refine mirror_current ?_
  rw [bind_get, bind_get]
  dsimp only
  rw [h.kind, Token.text_of_content h.current]
  generalize (if cursor.current.kind = .name then context.nameKind cursor.current.text
    else NameKind.undeclared) = kind
  cases kind with
  | function =>
    refine (mirror_functionCall hinner hle h).bind fun result _ cursor other context hresult h => ?_
    exact mirror_pure (congrArg CallResult.item hresult) h
  | constructor => exact mirror_constructorCall hinner hle h
  | value => exact .error
  | undeclared => exact .error

/-! ## Ternaries, assignments and names -/

theorem mirror_ternary (hinner : Mirroring inner inner') (h : cursor.Slack other) :
    Mirror Eq (ternary inner ⟨cursor, context⟩) (ternary inner' ⟨other, context⟩) := by
  rw [ternary, ternary]
  refine mirror_currentLine fun line line' => ?_
  refine (mirror_reading (CursorM.mirror_expectKeyword _ h)).bind fun _ _ cursor other context _ h => ?_
  refine (mirror_reading (CursorM.mirror_expect _ h)).bind fun _ _ cursor other context _ h => ?_
  refine (mirror_valueOf hinner h).bind fun condition _ cursor other context hcondition h => ?_
  subst hcondition
  refine (mirror_reading (CursorM.mirror_expect _ h)).bind fun _ _ cursor other context _ h => ?_
  split
  · refine (mirror_valueOf hinner h).bind fun item _ cursor other context hitem h => ?_
    refine (mirror_reading (CursorM.mirror_expectKeyword _ h)).bind fun _ _ cursor other context _ h => ?_
    refine (mirror_reading (CursorM.mirror_skipExpression h)).bind fun _ _ cursor other context _ h => ?_
    exact mirror_pure hitem h
  · refine (mirror_reading (CursorM.mirror_skipExpression h)).bind fun _ _ cursor other context _ h => ?_
    refine (mirror_reading (CursorM.mirror_expectKeyword _ h)).bind fun _ _ cursor other context _ h => ?_
    exact mirror_valueOf hinner h
  · exact .error

theorem mirror_assignment (hinner : Mirroring inner inner') (h : cursor.Slack other) :
    Mirror Eq (assignment inner ⟨cursor, context⟩) (assignment inner' ⟨other, context⟩) := by
  rw [assignment, assignment]
  refine mirror_currentLine fun line line' => ?_
  refine (mirror_reading (CursorM.mirror_advance h)).bind fun token token' cursor other context htoken h => ?_
  rw [Token.text_of_content htoken]
  refine (mirror_reading (CursorM.mirror_expect _ h)).bind fun _ _ cursor other context _ h => ?_
  rw [bind_get, bind_get]
  dsimp only
  cases context.scopes.lookup? token.text with
  | none => exact .error
  | some binding =>
    refine Mirrors.ite (fun _ => ?_) fun _ => .error
    refine (mirror_valueOf hinner h).bind fun item _ cursor other context hitem h => ?_
    subst hitem
    exact (mirror_acting _ h).bind fun _ _ cursor other context _ h => mirror_pure rfl h

theorem mirror_nameValue (hinner : Mirroring inner inner') (h : cursor.Slack other) :
    Mirror Eq (nameValue inner ⟨cursor, context⟩) (nameValue inner' ⟨other, context⟩) := by
  rw [nameValue, nameValue, bind_get, bind_get]
  dsimp only
  rw [Token.text_of_content h.current, Token.kind_of_content h.peek]
  refine Mirrors.ite (fun _ => .error) fun _ => Mirrors.ite (fun _ => mirror_assignment hinner h) fun _ => ?_
  cases context.scopes.lookup? cursor.current.text with
  | none => exact .error
  | some binding =>
    refine (mirror_reading (CursorM.mirror_advance h)).bind fun _ _ cursor other context _ h => ?_
    exact mirror_pure rfl h

theorem mirror_thisValue (h : cursor.Slack other) :
    Mirror Eq (thisValue ⟨cursor, context⟩) (thisValue ⟨other, context⟩) := by
  rw [thisValue, bind_get, bind_get]
  dsimp only
  cases context.scopes.lookup? "this" with
  | none => exact .error
  | some binding =>
    refine (mirror_reading (CursorM.mirror_advance h)).bind fun _ _ cursor other context _ h => ?_
    exact mirror_pure rfl h

/-! ## Expressions -/

theorem mirror_plainElement {token token' : Token} (htoken : SameContent token token') (h : cursor.Slack other) :
    Mirror Eq (plainElement token ⟨cursor, context⟩) (plainElement token' ⟨other, context⟩) := by
  obtain ⟨kind, text, span⟩ := token
  obtain ⟨kind', text', span'⟩ := token'
  cases htoken
  unfold plainElement
  dsimp only
  split
  · exact mirror_pure rfl h
  · exact mirror_pure rfl h
  · cases Operator.ofSymbol? text with
    | some op => exact mirror_pure rfl h
    | none => exact .error
  · refine Mirrors.ite (fun _ => ?_) fun _ => .error
    have hliteral : Item.ofLiteral ⟨kind, text, span'⟩ = Item.ofLiteral ⟨kind, text, span⟩ := rfl
    rw [hliteral]
    cases Item.ofLiteral ⟨kind, text, span⟩ with
    | ok item => exact mirror_pure rfl h
    | error error => exact .error

theorem mirror_value {walk walk' : WalkM Item} (hwalk : Mirror Eq (walk ⟨cursor, context⟩) (walk' ⟨other, context⟩)) :
    Mirror Eq ((do return .value (← walk) : WalkM Element) ⟨cursor, context⟩)
      ((do return .value (← walk') : WalkM Element) ⟨other, context⟩) :=
  hwalk.bind fun _ _ _ _ _ hitem h => mirror_pure (congrArg Element.value hitem) h

theorem mirror_element (hinner : Mirroring inner inner') (hle : steps ≤ steps') (h : cursor.Slack other) :
    Mirror Eq (element executor inner steps ⟨cursor, context⟩) (element executor inner' steps' ⟨other, context⟩) := by
  rw [element, element, bind_get, bind_get]
  dsimp only
  rw [h.call, Token.kind_of_content h.peek, h.isKeywordOf, h.isKeywordOf, h.isKeywordOf, h.not_lambda, h.kind]
  refine .ite (fun _ => mirror_value (mirror_callSite hinner hle h)) fun _ => ?_
  refine .ite (fun _ => .error) fun _ => ?_
  refine .ite (fun _ => .error) fun _ => ?_
  refine .ite (fun _ => mirror_value (mirror_ternary hinner h)) fun _ => ?_
  rw [if_neg Bool.false_ne_true, if_neg Bool.false_ne_true]
  refine .ite (fun _ => .error) fun _ => ?_
  refine .ite (fun _ => mirror_value (mirror_nameValue hinner h)) fun _ => ?_
  refine .ite (fun _ => mirror_value (mirror_thisValue h)) fun _ => ?_
  refine (mirror_plainElement h.current h).bind fun element _ cursor other context helement h => ?_
  refine (mirror_reading (CursorM.mirror_advance h)).bind fun _ _ cursor other context _ h => ?_
  exact mirror_pure helement h

/-- Both walks read elements from where their expressions start. -/
theorem mirroring_expressionBy {elementsFrom elementsFrom' : Nat → WalkM (List Element)}
    (helements : ∀ cursor other context, cursor.Slack other →
      Mirror Eq (elementsFrom cursor.position ⟨cursor, context⟩) (elementsFrom' other.position ⟨other, context⟩)) :
    Mirroring (expressionBy elementsFrom) (expressionBy elementsFrom') := by
  intro cursor other context h
  rw [expressionBy, expressionBy]
  refine (mirror_reading (CursorM.mirror_skipLineBreaks h)).bind fun _ _ cursor other context _ h => ?_
  rw [bind_get, bind_get]
  exact (helements _ _ _ h).bind fun _ _ cursor other context hsame h => mirror_pure hsame.symm h

/-- The elements of an expression. Each of them takes a token, so the cursors leave the start together. -/
theorem mirror_elements {first first' : Nat} (hle : steps ≤ steps') (waiting : List TokenKind) (h : cursor.Slack other)
    (hpaced : Paced first first' cursor other) :
    Mirror Eq (elements executor steps first waiting ⟨cursor, context⟩)
      (elements executor steps' first' waiting ⟨other, context⟩) := by
  induction steps generalizing steps' first first' waiting cursor other context with
  | zero => exact .error
  | succ steps ih =>
    obtain ⟨steps', rfl⟩ : ∃ n, steps' = n + 1 := ⟨steps' - 1, by omega⟩
    have hle : steps ≤ steps' := by omega
    rw [elements, elements, bind_get, bind_get]
    dsimp only
    cases hcase : cursor.boundary first waiting.isEmpty with
    | clash => exact .error
    | ends =>
      rw [h.boundary hpaced (by rw [hcase]; exact Cursor.Boundary.noConfusion), hcase]
      exact mirror_pure rfl h
    | inside =>
      rw [h.boundary hpaced (by rw [hcase]; exact Cursor.Boundary.noConfusion), hcase, h.kind]
      have hkind := Cursor.kind_ne_eof_of_inside hcase
      have hkind' : other.current.kind ≠ .eof := by
        rw [h.kind]
        exact hkind
      have hinner : Mirroring (expressionBy (elements executor steps · []))
          (expressionBy (elements executor steps' · [])) :=
        mirroring_expressionBy fun cursor other context h => ih hle [] h (.inl ⟨rfl, rfl⟩)
      refine (mirror_element hinner hle h).bindRun fun element _ later later' context hrun hrun' helement h' => ?_
      have hread := readFrom_element forward_expressionBy stopsGuarded_expressionBy h.terminated hkind hrun
      have hread' := readFrom_element forward_expressionBy stopsGuarded_expressionBy h.terminated' hkind' hrun'
      subst helement
      refine (ih hle _ h' (hpaced.past hread.position hread'.position)).bind
        fun rest _ cursor other context hrest h => ?_
      exact mirror_pure (congrArg (element :: ·) hrest) h

theorem mirroring_expression : Mirroring (expression executor) (expression executor) := by
  intro cursor other context h
  rw [expression, bounded, bind_get, bind_get]
  have hle := Nat.succ_le_succ h.length_le
  exact mirroring_expressionBy (fun _ _ _ h => mirror_elements hle [] h (.inl ⟨rfl, rfl⟩)) cursor other context h

theorem mirror_evaluation (h : cursor.Slack other) :
    Mirror Eq (evaluation executor ⟨cursor, context⟩) (evaluation executor ⟨other, context⟩) :=
  mirror_valueOf mirroring_expression h

end WalkM

end GradualScript
