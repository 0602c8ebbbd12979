import GradualScript.Proofs.Cursor.Placing
import GradualScript.Proofs.Program.Following
import GradualScript.Proofs.Walk.Spacing

/-!
# Expressions that go on

* `WalkM.element_call`, `WalkM.element_name`, … : which element stands at the cursor;
* `WalkM.collect` : the elements of an expression, with those that were read before;
* `Reads` : tokens that are read as a meaning resolves them, in an expression that goes on;
* `reads_literal`, `reads_name`, `reads_paren`, `reads_unary`, `reads_binary` : the forms that are read in place.
-/

set_option autoImplicit false

namespace GradualScript

open Cursor CursorM

namespace WalkM

/-- A reading that succeeds leaves the context alone. -/
theorem bind_reading {α β : Type} {m : CursorM α} {f : α → WalkM β} {cursor later : Cursor} {a : α}
    {context : Context} (h : m cursor = .ok a later) :
    ((liftM m : WalkM α) >>= f) ⟨cursor, context⟩ = f a ⟨later, context⟩ := by
  refine bind_of_ok ?_
  change ofCursor m ⟨cursor, context⟩ = _
  rw [ofCursor, h]

theorem bind_current {α : Type} {f : Token → WalkM α} (walk : Walk) :
    (current >>= f) walk = f walk.cursor.current walk :=
  rfl

theorem bind_currentLine {α : Type} {f : Nat → WalkM α} (walk : Walk) :
    (currentLine >>= f) walk = f walk.cursor.line walk :=
  rfl

theorem fails_failHere {α : Type} (kind : ErrorKind) (cursor : Cursor) (context : Context) :
    Fails ((failHere kind : WalkM α) ⟨cursor, context⟩) kind context :=
  ⟨cursor.line, cursor, rfl⟩

theorem fails_fail {α : Type} (kind : ErrorKind) (line : Nat) (cursor : Cursor) (context : Context) :
    Fails ((fail ⟨kind, line⟩ : WalkM α) ⟨cursor, context⟩) kind context :=
  ⟨line, cursor, rfl⟩

/-! ## Elements -/

section Element

variable {executor : Executor} {inner : WalkM Expression} {steps : Nat} {before rest : List Token} {token : Token}
  {context : Context}

/-- The tokens behind a name or a literal that nothing is done to. -/
theorem peek_of_clear (before : List Token) (hobject : token.kind.isObject = true) (hclear : Clear rest) :
    (Cursor.mk before token rest).peekRaw.kind ≠ .opening .round ∧
      (Cursor.mk before token rest).peek.kind ≠ .opening .square ∧
      (Cursor.mk before token rest).peek.kind ≠ .dot ∧ (Cursor.mk before token rest).peek.kind ≠ .assignment := by
  constructor
  · cases rest with
    | nil => exact absurd rfl hclear.ne_nil
    | cons next rest => exact hclear.raw next rfl
  · rw [peek]
    cases hfind : rest.find? (·.kind ≠ .newline) with
    | some next => exact hclear.next next hfind
    | none =>
      refine ⟨?_, ?_, ?_⟩ <;> intro hkind <;> change token.kind = _ at hkind <;> rw [hkind] at hobject <;>
        cases hobject

theorem isKeywordOf_eq_false (h : token.kind ≠ .keyword) (word : String) : token.isKeywordOf word = false := by
  rw [Token.isKeywordOf, decide_eq_false h, Bool.false_and]

/-- A name with a parenthesis right behind it. -/
theorem element_call (hname : token.kind = .name) {opening : Token} (hopening : opening.kind = .opening .round) :
    element executor inner steps ⟨⟨before, token, opening :: rest⟩, context⟩ =
      (do return .value (← callSite executor inner steps) : WalkM Element)
        ⟨⟨before, token, opening :: rest⟩, context⟩ := by
  rw [element, bind_get]
  have hcall : (token.kind.isObject &&
      decide ((Cursor.mk before token (opening :: rest)).peekRaw.kind = .opening .round)) = true := by
    change (token.kind.isObject && decide (opening.kind = .opening .round)) = true
    rw [hname, hopening]
    rfl
  dsimp only
  rw [if_pos hcall]

/-- A name that is not called. -/
theorem element_name (hname : token.kind = .name)
    (hraw : (Cursor.mk before token rest).peekRaw.kind ≠ .opening .round)
    (hsquare : (Cursor.mk before token rest).peek.kind ≠ .opening .square)
    (hdot : (Cursor.mk before token rest).peek.kind ≠ .dot) :
    element executor inner steps ⟨⟨before, token, rest⟩, context⟩ =
      (do return .value (← nameValue inner) : WalkM Element) ⟨⟨before, token, rest⟩, context⟩ := by
  rw [element, bind_get]
  dsimp only
  have hkeyword : token.kind ≠ .keyword := by simp [hname]
  simp only [hraw, hsquare, hdot, hname, isKeywordOf_eq_false hkeyword, decide_false, Bool.and_false, reduceCtorEq,
    Bool.false_eq_true, if_false, if_true]

theorem element_if (hkeyword : token.isKeywordOf "if" = true) :
    element executor inner steps ⟨⟨before, token, rest⟩, context⟩ =
      (do return .value (← ternary inner) : WalkM Element) ⟨⟨before, token, rest⟩, context⟩ := by
  rw [element, bind_get]
  dsimp only
  have hobject : token.kind.isObject = false := by
    rw [kind_of_isKeywordOf hkeyword]
    rfl
  have hsquare : token.kind ≠ .opening .square := by simp [kind_of_isKeywordOf hkeyword]
  simp only [hobject, hsquare, hkeyword, Bool.false_and, Bool.false_eq_true, if_false, if_true]

/-- Parentheses, operators and literals. -/
theorem element_plain (hclear : token.kind.isObject = true → Clear rest)
    (hkind : token.kind ≠ .name ∧ token.kind ≠ .keyword ∧ token.kind ≠ .opening .square) :
    element executor inner steps ⟨⟨before, token, rest⟩, context⟩ =
      (do
        let element ← plainElement token
        let _ ← advance
        return element : WalkM Element) ⟨⟨before, token, rest⟩, context⟩ := by
  rw [element, bind_get]
  dsimp only
  obtain ⟨hname, hkeyword, hsquare⟩ := hkind
  cases hobject : token.kind.isObject with
  | false =>
    simp only [hname, hsquare, isKeywordOf_eq_false hkeyword, Bool.false_and, Bool.false_eq_true, if_false]
  | true =>
    obtain ⟨hraw, hindex, hdot, -⟩ := peek_of_clear before hobject (hclear hobject)
    simp only [hraw, hindex, hdot, hname, hsquare, isKeywordOf_eq_false hkeyword, decide_false, Bool.and_false,
      Bool.false_eq_true, if_false]

end Element

/-! ## Expressions that go on -/

/-- The rest of an expression behind elements that were read before. -/
def collect (executor : Executor) (steps first : Nat) (waiting : List TokenKind) (read : List Element) :
    WalkM (List Element) := do
  return read ++ (← elements executor steps first waiting)

/-- The reader of the expressions inside an expression. -/
abbrev inside (executor : Executor) (steps : Nat) : WalkM Expression :=
  expressionBy (elements executor steps · [])

variable {executor : Executor} {steps first : Nat} {waiting : List TokenKind} {read : List Element} {walk : Walk}

theorem collect_nil : collect executor steps first waiting [] = elements executor steps first waiting := by
  funext walk
  rw [collect]
  cases h : elements executor steps first waiting walk with
  | ok rest later => rw [bind_of_ok h, List.nil_append]; rfl
  | error failure later => exact bind_of_error h

theorem collect_ends (h : walk.cursor.boundary first waiting.isEmpty = .ends) :
    collect executor (steps + 1) first waiting read walk = .ok read walk := by
  have helements : elements executor (steps + 1) first waiting walk = .ok [] walk := by
    rw [elements, bind_get, h]
    rfl
  rw [collect, bind_of_ok helements, List.append_nil]
  rfl

/-- One more element. -/
theorem collect_inside (h : walk.cursor.boundary first waiting.isEmpty = .inside) :
    collect executor (steps + 1) first waiting read walk = (do
      let element ← element executor (inside executor steps) steps
      collect executor steps first (Cursor.track waiting walk.cursor.current.kind) (read ++ [element])) walk := by
  have helements : elements executor (steps + 1) first waiting walk = (do
      let element ← element executor (inside executor steps) steps
      return element :: (← elements executor steps first (Cursor.track waiting walk.cursor.current.kind))) walk := by
    rw [elements, bind_get, h]
  cases helement : element executor (inside executor steps) steps walk with
  | error failure later =>
    rw [bind_of_error helement] at helements ⊢
    exact bind_of_error helements
  | ok element later =>
    rw [bind_of_ok helement] at helements ⊢
    rw [collect, collect]
    cases hrest : elements executor steps first (Cursor.track waiting walk.cursor.current.kind) later with
    | error failure last =>
      rw [bind_of_error hrest] at helements ⊢
      exact bind_of_error helements
    | ok rest last =>
      rw [bind_of_ok hrest] at helements ⊢
      rw [bind_of_ok helements, List.append_assoc]
      rfl

end WalkM

open WalkM (collect collect_ends collect_inside inside)

/-- The tokens are read as the meaning resolves them, in an expression that goes on with `following`. -/
def Reads (executor : Executor) (context : Context) (meaning : Effect OperatorTree)
    (tokens following : List Token) : Prop :=
  ∀ (steps first : Nat) (waiting : List TokenKind) (before : List Token) (read : List Element) (scopes : ScopeStack),
    Entering first before → (tokens ++ following).length ≤ steps →
    Follows context (meaning scopes)
      (collect executor steps first waiting read ⟨onto before (tokens ++ following), context.withScopes scopes⟩)
      fun tree later => ∃ left, following.length ≤ left ∧
        collect executor steps first waiting read ⟨onto before (tokens ++ following), context.withScopes scopes⟩ =
          collect executor left first waiting (read ++ tree.written)
            ⟨onto (tokens.reverse ++ before) following, context.withScopes later⟩

variable {executor : Executor} {context : Context}

/-- What is read as a value. -/
theorem reads_value {M : Effect Item} {token : Token} {rest following : List Token}
    (hending : ending token.kind = false) (hbracket : token.kind.isBracket = false)
    (h : ∀ (steps : Nat) (before : List Token) (scopes : ScopeStack), (rest ++ following).length ≤ steps →
      Gives context ((do return Element.value (← M) : Effect Element) scopes)
        (onto ((token :: rest).reverse ++ before) following)
        (WalkM.element executor (inside executor steps) steps
          ⟨onto before (token :: (rest ++ following)), context.withScopes scopes⟩)) :
    Reads executor context (do return .value (← M)) (token :: rest) following := by
  intro steps first waiting before read scopes hentering hsteps
  obtain ⟨left, rfl⟩ : ∃ left, steps = left + 1 := ⟨steps - 1, by simp at hsteps; omega⟩
  have hrest : (rest ++ following).length ≤ left := by simp at hsteps ⊢; omega
  have helement := h left before scopes hrest
  have hinside : (onto before (token :: (rest ++ following))).boundary first waiting.isEmpty = .inside :=
    boundary_entering hending hentering
  have hcollect : collect executor (left + 1) first waiting read
      ⟨onto before (token :: (rest ++ following)), context.withScopes scopes⟩ = _ := collect_inside hinside
  rw [List.cons_append, hcollect]
  cases hM : M scopes with
  | error kind later =>
    rw [bind_of_error hM] at helement ⊢
    exact Fails.bind helement
  | ok item later =>
    rw [bind_of_ok hM] at helement ⊢
    refine ⟨left, by simp at hrest; omega, ?_⟩
    rw [bind_of_ok helement, current_onto (newline_ne_of_not_ending hending), track_of_not_bracket hbracket]
    rfl

theorem reads_literal (literal : Literal) {token : Token} (hkind : token.kind = literal.kind)
    (htext : token.text = literal.text) {following : List Token} (hclear : Clear following) :
    Reads executor context (do return .value (← Effect.ofExcept literal.value)) [token] following := by
  obtain ⟨kind, text, hliteral⟩ := literal
  change token.kind = kind at hkind
  change token.text = text at htext
  subst hkind htext
  have hending : ending token.kind = false := by
    generalize token.kind = kind at hliteral
    cases kind <;> first | rfl | cases hliteral
  have hkind : token.kind ≠ .name ∧ token.kind ≠ .keyword ∧ token.kind ≠ .opening .square := by
    refine ⟨?_, ?_, ?_⟩ <;> intro hkind <;> rw [hkind] at hliteral <;> cases hliteral
  have hbracket : token.kind.isBracket = false := by
    generalize token.kind = kind at hliteral
    cases kind <;> first | rfl | cases hliteral
  refine reads_value hending hbracket fun steps before scopes hsteps => ?_
  have hnewline := newline_ne_of_not_ending hending
  rw [List.nil_append, onto_cons hnewline, WalkM.element_plain (fun _ => hclear) hkind,
    WalkM.plainElement_literal hliteral, ← onto_cons hnewline]
  change Gives context ((do return Element.value (← Effect.ofExcept (Item.ofLiteral token)) : Effect Element) scopes)
    _ _
  cases hvalue : Item.ofLiteral token with
  | error kind => exact Fails.bind (WalkM.fails_failHere kind _ _)
  | ok item =>
    change (liftM advance >>= fun _ => pure (Element.value item) : WalkM Element)
      ⟨onto before (token :: following), context.withScopes scopes⟩ = _
    rw [WalkM.bind_reading (advance_run_onto hnewline (eof_ne_of_not_ending hending) hclear.ne_nil)]
    rfl

/-! ## Names -/

open WalkM (nameValue)

theorem nameKind_eq_undeclared_iff (context : Context) (name : String) :
    context.nameKind name = .undeclared ↔ context.registry.hasFunction name = false ∧
      context.scopes.lookup? name = none ∧ context.registry.hasClass name = false := by
  rw [Context.nameKind]
  cases context.registry.hasFunction name with
  | true => simp
  | false =>
    cases context.scopes.lookup? name with
    | some binding => cases hcallable : binding.isCallable <;> simp [hcallable]
    | none => cases context.registry.hasClass name <;> simp

/-- The value of a name that nothing is done to. -/
theorem gives_nameValue {inner : WalkM Expression} {token : Token} {following before : List Token}
    (hname : token.kind = .name) (hclear : Clear following) (scopes : ScopeStack) :
    Gives context (Effect.lookUp context.registry token.text scopes) (onto (token :: before) following)
      (nameValue inner ⟨onto before (token :: following), context.withScopes scopes⟩) := by
  have hnewline : token.kind ≠ .newline := by simp [hname]
  have hpeek := (WalkM.peek_of_clear before (by rw [hname]; rfl) hclear).2.2.2
  have hkind := nameKind_eq_undeclared_iff (context.withScopes scopes) token.text
  rw [onto_cons hnewline, nameValue, bind_get, Effect.lookUp, bind_get]
  dsimp only
  rw [if_neg hpeek]
  cases hfind : scopes.lookup? token.text with
  | some binding =>
    have hfind' : (context.withScopes scopes).scopes.lookup? token.text = some binding := hfind
    have hdeclared : (context.withScopes scopes).nameKind token.text ≠ .undeclared := by
      rw [Ne, hkind, hfind']
      simp
    rw [if_neg hdeclared, hfind', ← onto_cons hnewline]
    exact WalkM.bind_reading (advance_run_onto hnewline (by simp [hname]) hclear.ne_nil)
  | none =>
    have hfind' : (context.withScopes scopes).scopes.lookup? token.text = none := hfind
    by_cases hregistered : (context.registry.hasFunction token.text || context.registry.hasClass token.text) = true
    · have hdeclared : (context.withScopes scopes).nameKind token.text ≠ .undeclared := by
        rw [Ne, hkind]
        rintro ⟨hfunction, -, hclass⟩
        change context.registry.hasFunction token.text = false at hfunction
        change context.registry.hasClass token.text = false at hclass
        rw [hfunction, hclass] at hregistered
        cases hregistered
      rw [if_neg hdeclared, hfind']
      dsimp only
      rw [if_pos hregistered]
      exact WalkM.fails_failHere _ _ _
    · have hundeclared : (context.withScopes scopes).nameKind token.text = .undeclared := by
        rw [Bool.not_eq_true, Bool.or_eq_false_iff] at hregistered
        exact hkind.2 ⟨hregistered.1, hfind, hregistered.2⟩
      rw [if_pos hundeclared]
      dsimp only
      rw [if_neg hregistered]
      exact WalkM.fails_failHere _ _ _

theorem reads_name {token : Token} (hname : token.kind = .name) {following : List Token} (hclear : Clear following) :
    Reads executor context (do return .value (← Effect.lookUp context.registry token.text)) [token] following := by
  refine reads_value (by rw [hname]; rfl) (by rw [hname]; rfl) fun steps before scopes hsteps => ?_
  have hnewline : token.kind ≠ .newline := by simp [hname]
  obtain ⟨hraw, hsquare, hdot, -⟩ := WalkM.peek_of_clear before (by rw [hname]; rfl) hclear
  rw [List.nil_append, onto_cons hnewline, WalkM.element_name hname hraw hsquare hdot, ← onto_cons hnewline]
  exact (gives_nameValue hname hclear scopes).map

/-! ## Operators and parentheses -/

open WalkM (plainElement)

theorem plainElement_opening {token : Token} (h : token.kind = .opening .round) :
    plainElement token = pure .openParen := by
  rw [plainElement, h]

theorem plainElement_closing {token : Token} (h : token.kind = .closing .round) :
    plainElement token = pure .closeParen := by
  rw [plainElement, h]

theorem plainElement_operator {token : Token} {op : Operator} (h : token.kind = .operator)
    (htext : token.text = op.symbol) : plainElement token = pure (.operator op) := by
  rw [plainElement, h, htext, Operator.ofSymbol?_symbol]

/-- A parenthesis or an operator is an element of its own. -/
theorem collect_plain {steps first : Nat} {waiting : List TokenKind} {read : List Element} {token : Token}
    {before rest : List Token} {element : Element} {later : Context}
    (hinside : (onto before (token :: rest)).boundary first waiting.isEmpty = .inside)
    (hkind : token.kind = .opening .round ∨ token.kind = .closing .round ∨ token.kind = .operator)
    (helement : plainElement token = pure element) (hne : rest ≠ []) :
    collect executor (steps + 1) first waiting read ⟨onto before (token :: rest), later⟩ =
      collect executor steps first (track waiting token.kind) (read ++ [element])
        ⟨onto (token :: before) rest, later⟩ := by
  have hnewline : token.kind ≠ .newline := by rcases hkind with h | h | h <;> simp [h]
  have heof : token.kind ≠ .eof := by rcases hkind with h | h | h <;> simp [h]
  have hobject : token.kind.isObject = true → Clear rest := by
    intro hobject
    rcases hkind with h | h | h <;> rw [h] at hobject <;> cases hobject
  have hothers : token.kind ≠ .name ∧ token.kind ≠ .keyword ∧ token.kind ≠ .opening .square := by
    rcases hkind with h | h | h <;> simp [h]
  have hrun : WalkM.element executor (inside executor steps) steps ⟨onto before (token :: rest), later⟩ =
      .ok element ⟨onto (token :: before) rest, later⟩ := by
    rw [onto_cons hnewline, WalkM.element_plain hobject hothers, helement, ← onto_cons hnewline]
    change (liftM advance >>= fun _ => pure element : WalkM Element) _ = _
    rw [WalkM.bind_reading (advance_run_onto hnewline heof hne)]
    rfl
  rw [collect_inside hinside, bind_of_ok hrun, current_onto hnewline]

theorem reads_paren {M : Effect OperatorTree} {opening closing : Token} {tokens following : List Token}
    (hopening : opening.kind = .opening .round) (hclosing : closing.kind = .closing .round) (hne : following ≠ [])
    (h : Reads executor context M tokens (closing :: following)) :
    Reads executor context (do return .paren (← M)) (opening :: (tokens ++ [closing])) following := by
  intro steps first waiting before read scopes hentering hsteps
  obtain ⟨steps, rfl⟩ : ∃ left, steps = left + 1 := ⟨steps - 1, by simp at hsteps; omega⟩
  have hshape : opening :: (tokens ++ [closing]) ++ following = opening :: (tokens ++ closing :: following) := by simp
  have hplace : (opening :: (tokens ++ [closing])).reverse ++ before =
      closing :: (tokens.reverse ++ opening :: before) := by simp
  rw [hshape] at hsteps ⊢
  rw [hplace]
  have hinside : (onto before (opening :: (tokens ++ closing :: following))).boundary first waiting.isEmpty =
      .inside := boundary_entering (by rw [hopening]; rfl) hentering
  have henter : Entering first (opening :: before) := entering_of_kind (.inl hopening)
  rw [collect_plain hinside (.inl hopening) (plainElement_opening hopening) (by simp), hopening, track_opening]
  refine Follows.bind ((h steps first (.opening .round :: waiting) (opening :: before) (read ++ [.openParen]) scopes
    henter (by simp at hsteps ⊢; omega)).imp (fun _ _ => id) ?_)
  rintro tree later ⟨middle, hmiddle, hrun⟩
  obtain ⟨left, rfl⟩ : ∃ left, middle = left + 1 := ⟨middle - 1, by simp at hmiddle; omega⟩
  have hinside' : (onto (tokens.reverse ++ opening :: before) (closing :: following)).boundary first
      (TokenKind.opening .round :: waiting).isEmpty = .inside := boundary_onto_closing hclosing
  rw [hrun, collect_plain hinside' (.inr (.inl hclosing)) (plainElement_closing hclosing) hne, hclosing,
    track_closing]
  refine ⟨left, by simp at hmiddle; omega, ?_⟩
  simp [OperatorTree.written]

theorem reads_unary {M : Effect OperatorTree} {op : Operator} {operator : Token} {tokens following : List Token}
    (hkind : operator.kind = .operator) (htext : operator.text = op.symbol) (hne : following ≠ [])
    (h : Reads executor context M tokens following) :
    Reads executor context (do return .unary op (← M)) (operator :: tokens) following := by
  intro steps first waiting before read scopes hentering hsteps
  obtain ⟨steps, rfl⟩ : ∃ left, steps = left + 1 := ⟨steps - 1, by simp at hsteps; omega⟩
  have hinside : (onto before (operator :: (tokens ++ following))).boundary first waiting.isEmpty = .inside :=
    boundary_entering (by rw [hkind]; rfl) hentering
  have henter : Entering first (operator :: before) := entering_of_kind (.inr hkind)
  rw [List.cons_append, collect_plain hinside (.inr (.inr hkind)) (plainElement_operator hkind htext)
    (List.append_ne_nil_of_right_ne_nil _ hne), hkind, track_of_not_bracket rfl]
  refine Follows.bind ((h steps first waiting (operator :: before) (read ++ [.operator op]) scopes henter
    (by simp at hsteps ⊢; omega)).imp (fun _ _ => id) ?_)
  rintro tree later ⟨left, hleft, hrun⟩
  refine ⟨left, hleft, ?_⟩
  rw [hrun]
  simp [OperatorTree.written]

theorem reads_binary {M N : Effect OperatorTree} {op : Operator} {operator : Token}
    {tokens others following : List Token} (hkind : operator.kind = .operator) (htext : operator.text = op.symbol)
    (hop : op.isUnary = false) (hne : following ≠ [])
    (h : Reads executor context M tokens (operator :: (others ++ following)))
    (h' : Reads executor context N others following) :
    Reads executor context (do let x ← M; let y ← N; return .binary op x y) (tokens ++ operator :: others)
      following := by
  intro steps first waiting before read scopes hentering hsteps
  have hshape : tokens ++ operator :: others ++ following = tokens ++ operator :: (others ++ following) := by simp
  have hplace : (tokens ++ operator :: others).reverse ++ before =
      others.reverse ++ operator :: (tokens.reverse ++ before) := by simp
  rw [hshape] at hsteps ⊢
  rw [hplace]
  refine Follows.bind ((h steps first waiting before read scopes hentering hsteps).imp (fun _ _ => id) ?_)
  rintro x later ⟨middle, hmiddle, hrun⟩
  obtain ⟨steps', rfl⟩ : ∃ left, middle = left + 1 := ⟨middle - 1, by simp at hmiddle; omega⟩
  have hstarts : startsOperand operator = false := (startsOperand_operator hkind htext).trans hop
  have hinside : (onto (tokens.reverse ++ before) (operator :: (others ++ following))).boundary first
      waiting.isEmpty = .inside := boundary_onto_of_not_starts (by rw [hkind]; rfl) hstarts
  have henter : Entering first (operator :: (tokens.reverse ++ before)) := entering_of_kind (.inr hkind)
  rw [hrun, collect_plain hinside (.inr (.inr hkind)) (plainElement_operator hkind htext)
    (List.append_ne_nil_of_right_ne_nil _ hne), hkind, track_of_not_bracket rfl]
  refine Follows.bind ((h' steps' first waiting _ (read ++ x.written ++ [.operator op]) later henter
    (by simp at hmiddle ⊢; omega)).imp (fun _ _ => id) ?_)
  rintro y last ⟨left, hleft, hrun'⟩
  refine ⟨left, hleft, ?_⟩
  rw [hrun']
  simp [OperatorTree.written]

end GradualScript
