import GradualScript.Proofs.Expression.Skipping
import GradualScript.Proofs.Program.Reading

/-!
# Reading laid out expressions

Reading an expression looks names up, calls functions and stores values, all of which may fail. Where it does not, it
comes to the same token as skipping.

* `Reaches` : a reading that succeeds comes to the end of the tokens on its way;
* `Lands` : a reader of expressions stops at the end of the tokens, if it succeeds;
* `Laid.reads` : laid out tokens, form by form;
* `skip_agrees_with_reading` : skipping, reading and the two branches of a ternary all end at the same token.
-/

set_option autoImplicit false

namespace GradualScript

open Cursor CursorM

open WalkM (inside bind_reading bind_currentLine exists_of_valueOf Still still_ofContext still_hostCall)

variable {executor : Executor}

/-! ## Readings that go on -/

/-- A reading of an expression that succeeds goes on behind the tokens, in some context. -/
def Reaches (executor : Executor) (tokens following : List Token) : Prop :=
  ∀ (steps first : Nat) (waiting : List TokenKind) (before : List Token) (context : Context) (read : List Element)
    (later : Walk), Entering first before →
    WalkM.elements executor steps first waiting ⟨onto before (tokens ++ following), context⟩ = .ok read later →
    ∃ left context' rest, WalkM.elements executor left first waiting
      ⟨onto (tokens.reverse ++ before) following, context'⟩ = .ok rest later

/-- The reader stops at the end of the tokens, if it succeeds. -/
def Lands (inner : WalkM Expression) (tokens following : List Token) : Prop :=
  ∀ (before : List Token) (context : Context) (expression : Expression) (later : Walk),
    inner ⟨onto before (tokens ++ following), context⟩ = .ok expression later →
    later.cursor = onto (tokens.reverse ++ before) following

/-- One element, and the rest of the expression. -/
theorem exists_of_elements {steps first : Nat} {waiting : List TokenKind} {walk later : Walk} {read : List Element}
    (hinside : walk.cursor.boundary first waiting.isEmpty = .inside)
    (h : WalkM.elements executor steps first waiting walk = .ok read later) :
    ∃ left element next rest, WalkM.element executor (inside executor left) left walk = .ok element next ∧
      WalkM.elements executor left first (track waiting walk.cursor.current.kind) next = .ok rest later := by
  cases steps with
  | zero => cases h
  | succ left =>
    rw [WalkM.elements, bind_get, hinside] at h
    obtain ⟨element, next, helement, h⟩ := bind_eq_ok.1 h
    obtain ⟨rest, last, hrest, h⟩ := bind_eq_ok.1 h
    cases h
    exact ⟨left, element, next, rest, helement, hrest⟩

/-- What is read as one element that is no bracket. -/
theorem reaches_element {token : Token} {rest following : List Token} (hending : ending token.kind = false)
    (hbracket : token.kind.isBracket = false)
    (h : ∀ (steps : Nat) (before : List Token) (context : Context) (element : Element) (next : Walk),
      WalkM.element executor (inside executor steps) steps ⟨onto before (token :: (rest ++ following)), context⟩ =
        .ok element next → next.cursor = onto ((token :: rest).reverse ++ before) following) :
    Reaches executor (token :: rest) following := by
  intro steps first waiting before context read later hentering hrun
  rw [List.cons_append] at hrun
  obtain ⟨left, element, ⟨cursor, context'⟩, elements, helement, hrest⟩ :=
    exists_of_elements (boundary_entering hending hentering) hrun
  obtain rfl : cursor = _ := h left before context element _ helement
  rw [current_onto (newline_ne_of_not_ending hending), track_of_not_bracket hbracket] at hrest
  exact ⟨left, context', elements, hrest⟩

/-- A parenthesis, an operator or a literal is read alone. -/
theorem cursor_of_element_plain {inner : WalkM Expression} {steps : Nat} {token : Token} {before rest : List Token}
    {context : Context} {element : Element} {next : Walk} (hclear : token.kind.isObject = true → Clear rest)
    (hkind : token.kind ≠ .name ∧ token.kind ≠ .keyword ∧ token.kind ≠ .opening .square)
    (hending : token.kind ≠ .newline ∧ token.kind ≠ .eof) (hne : rest ≠ [])
    (h : WalkM.element executor inner steps ⟨onto before (token :: rest), context⟩ = .ok element next) :
    next.cursor = onto (token :: before) rest := by
  rw [onto_cons hending.1, WalkM.element_plain hclear hkind, ← onto_cons hending.1] at h
  obtain ⟨plain, _, hplain, h⟩ := bind_eq_ok.1 h
  rw [(WalkM.plainElement_spec hplain).1, bind_reading (advance_run_onto hending.1 hending.2 hne)] at h
  cases h
  rfl

/-- A parenthesis or an operator, and the rest of the expression. -/
theorem exists_of_elements_mark {steps first : Nat} {waiting : List TokenKind} {token : Token}
    {before rest : List Token} {context : Context} {read : List Element} {later : Walk}
    (hinside : (onto before (token :: rest)).boundary first waiting.isEmpty = .inside)
    (hkind : token.kind = .opening .round ∨ token.kind = .closing .round ∨ token.kind = .operator) (hne : rest ≠ [])
    (h : WalkM.elements executor steps first waiting ⟨onto before (token :: rest), context⟩ = .ok read later) :
    ∃ left context' read', WalkM.elements executor left first (track waiting token.kind)
      ⟨onto (token :: before) rest, context'⟩ = .ok read' later := by
  have hending : token.kind ≠ .newline ∧ token.kind ≠ .eof := by rcases hkind with h | h | h <;> simp [h]
  obtain ⟨left, element, ⟨cursor, context'⟩, read', helement, hrest⟩ := exists_of_elements hinside h
  have hobject : token.kind.isObject = true → Clear rest := by
    intro hobject
    rcases hkind with h | h | h <;> rw [h] at hobject <;> cases hobject
  obtain rfl : cursor = _ := cursor_of_element_plain hobject (by rcases hkind with h | h | h <;> simp [h]) hending hne
    helement
  rw [current_onto hending.1] at hrest
  exact ⟨left, context', read', hrest⟩

/-! ## Operands -/

theorem reaches_literal {token : Token} {following : List Token} (h : token.kind.isLiteral = true)
    (hclear : Clear following) : Reaches executor [token] following := by
  have hkinds : ending token.kind = false ∧ token.kind.isBracket = false ∧ token.kind ≠ .name ∧
      token.kind ≠ .keyword ∧ token.kind ≠ .opening .square := by
    generalize token.kind = kind at h
    cases kind with
    | int | float | string | char | bool => exact ⟨rfl, rfl, nofun, nofun, nofun⟩
    | _ => cases h
  obtain ⟨hending, hbracket, hkind⟩ := hkinds
  refine reaches_element hending hbracket fun steps before context element next helement => ?_
  exact cursor_of_element_plain (fun _ => hclear) hkind
    ⟨newline_ne_of_not_ending hending, eof_ne_of_not_ending hending⟩ hclear.ne_nil helement

theorem reaches_name {token : Token} {following : List Token} (h : token.kind = .name) (hclear : Clear following) :
    Reaches executor [token] following := by
  refine reaches_element (by rw [h]; rfl) (by rw [h]; rfl) fun steps before context element next helement => ?_
  have hnewline : token.kind ≠ .newline := by simp [h]
  obtain ⟨hraw, hsquare, hdot, hassignment⟩ := WalkM.peek_of_clear before (by rw [h]; rfl) hclear
  rw [List.nil_append, onto_cons hnewline, WalkM.element_name h hraw hsquare hdot] at helement
  obtain ⟨item, later, hvalue, helement⟩ := bind_eq_ok.1 helement
  cases helement
  rw [WalkM.nameValue, bind_get] at hvalue
  dsimp only at hvalue
  rw [if_neg hassignment] at hvalue
  split at hvalue
  · cases hvalue
  · cases hfind : context.scopes.lookup? token.text with
    | none =>
      rw [hfind] at hvalue
      cases hvalue
    | some binding =>
      rw [hfind] at hvalue
      dsimp only at hvalue
      rw [← onto_cons hnewline, bind_reading (advance_run_onto hnewline (by simp [h]) hclear.ne_nil)] at hvalue
      cases hvalue
      rfl

/-- The value of `this`. -/
theorem element_this {inner : WalkM Expression} {steps : Nat} {before rest : List Token} {token : Token}
    {context : Context} (h : token.isKeywordOf "this" = true) :
    WalkM.element executor inner steps ⟨⟨before, token, rest⟩, context⟩ =
      (do return .value (← WalkM.thisValue) : WalkM Element) ⟨⟨before, token, rest⟩, context⟩ := by
  have hkind := kind_of_isKeywordOf h
  have hobject : token.kind.isObject = false := by
    rw [hkind]
    rfl
  have hsquare : token.kind ≠ .opening .square := by simp [hkind]
  have hname : token.kind ≠ .name := by simp [hkind]
  rw [WalkM.element, bind_get]
  dsimp only
  simp only [hobject, hsquare, hname, h, isKeywordOf_of_ne h (show "this" ≠ "if" by decide),
    isKeywordOf_of_ne h (show "this" ≠ "lambda" by decide), Bool.false_and, Bool.false_eq_true, if_false, if_true]

theorem element_lambda {inner : WalkM Expression} {steps : Nat} {before rest : List Token} {token : Token}
    {context : Context} (h : token.isKeywordOf "lambda" = true) :
    WalkM.element executor inner steps ⟨⟨before, token, rest⟩, context⟩ =
      (do return .value (.function (← CursorM.lambda)) : WalkM Element) ⟨⟨before, token, rest⟩, context⟩ := by
  have hkind := kind_of_isKeywordOf h
  have hobject : token.kind.isObject = false := by
    rw [hkind]
    rfl
  have hsquare : token.kind ≠ .opening .square := by simp [hkind]
  rw [WalkM.element, bind_get]
  dsimp only
  simp only [hobject, hsquare, h, isKeywordOf_of_ne h (show "lambda" ≠ "if" by decide), Bool.false_and,
    Bool.false_eq_true, if_false, if_true]

theorem reaches_this {token : Token} {following : List Token} (h : token.isKeywordOf "this" = true)
    (hne : following ≠ []) : Reaches executor [token] following := by
  have hkind := kind_of_isKeywordOf h
  refine reaches_element (by rw [hkind]; rfl) (by rw [hkind]; rfl) fun steps before context element next helement => ?_
  have hnewline : token.kind ≠ .newline := by simp [hkind]
  rw [List.nil_append, onto_cons hnewline, element_this h, ← onto_cons hnewline] at helement
  obtain ⟨item, later, hvalue, helement⟩ := bind_eq_ok.1 helement
  cases helement
  rw [WalkM.thisValue, bind_get] at hvalue
  cases hfind : context.scopes.lookup? "this" with
  | none =>
    rw [hfind] at hvalue
    cases hvalue
  | some binding =>
    rw [hfind] at hvalue
    dsimp only at hvalue
    rw [bind_reading (advance_run_onto hnewline (by simp [hkind]) hne)] at hvalue
    cases hvalue
    rfl

theorem reaches_lambda {tokens following : List Token} (h : LambdaTokens tokens) (hne : following ≠ []) :
    Reaches executor tokens following := by
  have hrun := CursorM.lambda_onto h hne
  obtain ⟨keyword, rest, rfl, hkeyword⟩ := h.exists_keyword
  have hkind := kind_of_isKeywordOf hkeyword
  have hnewline : keyword.kind ≠ .newline := by simp [hkind]
  refine reaches_element (by rw [hkind]; rfl) (by rw [hkind]; rfl)
    fun steps before context element next helement => ?_
  obtain ⟨function, hfunction⟩ := hrun before
  rw [onto_cons hnewline, element_lambda hkeyword, ← onto_cons hnewline] at helement
  rw [List.cons_append] at hfunction
  rw [bind_reading hfunction] at helement
  cases helement
  rfl

theorem reaches_group {opening closing : Token} {tokens following : List Token}
    (hopening : opening.kind = .opening .round) (hclosing : closing.kind = .closing .round) (hne : following ≠ [])
    (h : Reaches executor tokens (closing :: following)) :
    Reaches executor (opening :: (tokens ++ [closing])) following := by
  intro steps first waiting before context read later hentering hrun
  have hshape : opening :: (tokens ++ [closing]) ++ following = opening :: (tokens ++ closing :: following) := by simp
  have hplace : (opening :: (tokens ++ [closing])).reverse ++ before =
      closing :: (tokens.reverse ++ opening :: before) := by simp
  rw [hshape] at hrun
  rw [hplace]
  obtain ⟨_, _, _, hrun⟩ := exists_of_elements_mark (boundary_entering (by rw [hopening]; rfl) hentering)
    (.inl hopening) (by simp) hrun
  rw [hopening, track_opening] at hrun
  obtain ⟨_, _, _, hrun⟩ := h _ first _ _ _ _ _ (entering_of_kind (.inl hopening)) hrun
  obtain ⟨left, context', read', hrun⟩ := exists_of_elements_mark (boundary_onto_closing hclosing)
    (.inr (.inl hclosing)) hne hrun
  rw [hclosing, track_closing] at hrun
  exact ⟨left, context', read', hrun⟩

/-! ## Expressions of their own -/

/-- A reading that comes to the end of its tokens stops there. -/
theorem lands_inside {tokens following : List Token} (h : Reaches executor tokens following) (hended : Ended tokens)
    (hstarted : Started tokens) (hstops : Stops following) (steps : Nat) :
    Lands (inside executor steps) tokens following := by
  intro before context expression later hrun
  obtain ⟨token, rest, rfl, hstarts, -⟩ := hstarted
  have hnewline := (ne_of_startsOperand hstarts).1
  rw [List.cons_append, inside, WalkM.expressionBy, bind_reading (skipLineBreaks_run_onto hnewline), bind_get] at hrun
  obtain ⟨read, last, helements, hrun⟩ := bind_eq_ok.1 hrun
  cases hrun
  have hposition : (onto before (token :: (rest ++ following))).position = before.length := by
    rw [onto_cons hnewline]
    rfl
  rw [hposition, ← List.cons_append] at helements
  obtain ⟨left, context', read', hend⟩ := h steps before.length [] before context read later (.inl rfl) helements
  cases left with
  | zero => cases hend
  | succ left =>
    rw [WalkM.elements, bind_get] at hend
    dsimp only [List.isEmpty] at hend
    rw [hended.boundary hstops] at hend
    cases hend
    rfl

section Forms

variable {inner : WalkM Expression}

/-- A ternary ends behind its second branch, whichever is chosen. -/
theorem cursor_of_ternary {keyword opening closing alternative : Token}
    {conditions positives negatives following : List Token} (hkeyword : keyword.isKeywordOf "if" = true)
    (hopening : opening.kind = .opening .round) (hclosing : closing.kind = .closing .round)
    (halternative : alternative.isKeywordOf "else" = true)
    (hconditions : Lands inner conditions (closing :: (positives ++ alternative :: (negatives ++ following))))
    (hpositives : Laid .expression positives)
    (hpositives' : Lands inner positives (alternative :: (negatives ++ following)))
    (hnegatives : Laid .expression negatives) (hnegatives' : Lands inner negatives following)
    (hstops : Stops following) {before : List Token} {context : Context} {item : Item} {later : Walk}
    (h : WalkM.ternary inner ⟨onto before (keyword :: opening ::
      (conditions ++ closing :: (positives ++ alternative :: (negatives ++ following)))), context⟩ = .ok item later) :
    later.cursor = onto ((keyword :: opening ::
      (conditions ++ closing :: (positives ++ alternative :: negatives))).reverse ++ before) following := by
  have hrest : negatives ++ following ≠ [] := List.append_ne_nil_of_right_ne_nil _ hstops.clear.ne_nil
  have hplace : (keyword :: opening :: (conditions ++ closing :: (positives ++ alternative :: negatives))).reverse ++
      before = negatives.reverse ++ alternative :: (positives.reverse ++
        closing :: (conditions.reverse ++ opening :: keyword :: before)) := by simp
  rw [hplace]
  rw [WalkM.ternary, bind_currentLine, bind_reading (expectKeyword_onto hkeyword (by simp)),
    bind_reading (expect_onto hopening (by simp) (by simp) (by simp))] at h
  obtain ⟨condition, ⟨cursor, context'⟩, hcondition, h⟩ := bind_eq_ok.1 h
  obtain ⟨_, hrun, -⟩ := exists_of_valueOf hcondition
  obtain rfl : cursor = _ := hconditions _ _ _ _ hrun
  rw [bind_reading (expect_onto hclosing (by simp) (by simp) (by simp))] at h
  cases condition with
  | bool condition =>
    cases condition with
    | true =>
      obtain ⟨_, ⟨cursor, context''⟩, hvalue, h⟩ := bind_eq_ok.1 h
      obtain ⟨_, hrun, -⟩ := exists_of_valueOf hvalue
      obtain rfl : cursor = _ := hpositives' _ _ _ _ hrun
      rw [bind_reading (expectKeyword_onto halternative hrest),
        bind_reading (hnegatives.skipExpression hstops _)] at h
      cases h
      rfl
    | false =>
      dsimp only at h
      rw [bind_reading (hpositives.skipExpression (.alternative halternative) _),
        bind_reading (expectKeyword_onto halternative hrest)] at h
      obtain ⟨_, hrun, -⟩ := exists_of_valueOf h
      exact hnegatives' _ _ _ _ hrun
  | int | float | char | string | function | unit | object => cases h

theorem cursor_of_assignment {target sign : Token} {tokens following : List Token} (htarget : target.kind = .name)
    (hsign : sign.kind = .assignment) (hne : following ≠ []) (htokens : Lands inner tokens following)
    {before : List Token} {context : Context} {item : Item} {later : Walk}
    (h : WalkM.assignment inner ⟨onto before (target :: sign :: (tokens ++ following)), context⟩ = .ok item later) :
    later.cursor = onto ((target :: sign :: tokens).reverse ++ before) following := by
  have hrest : tokens ++ following ≠ [] := List.append_ne_nil_of_right_ne_nil _ hne
  have hplace : (target :: sign :: tokens).reverse ++ before = tokens.reverse ++ sign :: target :: before := by simp
  rw [hplace]
  rw [WalkM.assignment, bind_currentLine,
    bind_reading (advance_run_onto (by simp [htarget]) (by simp [htarget]) (by simp)),
    bind_reading (expect_onto hsign (by simp) (by simp) hrest), bind_get] at h
  cases hfind : context.scopes.lookup? target.text with
  | none =>
    rw [hfind] at h
    cases h
  | some binding =>
    rw [hfind] at h
    dsimp only at h
    split at h
    · obtain ⟨_, after, hvalue, h⟩ := bind_eq_ok.1 h
      obtain ⟨_, hrun, -⟩ := exists_of_valueOf hvalue
      obtain ⟨_, _, hassign, h⟩ := bind_eq_ok.1 h
      cases h
      have hstill : Still after later := (still_ofContext _).ok hassign
      rw [hstill]
      exact htokens _ _ _ _ hrun
    · cases h

/-- One or more arguments are read up to the closing parenthesis, and that with them. -/
def ArgumentsLand (inner : WalkM Expression) (tokens : List Token) : Prop :=
  ∀ (steps : Nat) (closing : Token) (following before : List Token) (context : Context) (items : List Item)
    (later : Walk), closing.kind = .closing .round → following ≠ [] →
    WalkM.argumentList inner steps ⟨onto before (tokens ++ closing :: following), context⟩ = .ok items later →
    later.cursor = onto (closing :: (tokens.reverse ++ before)) following

theorem argumentsLand_last {tokens : List Token}
    (h : ∀ following, Stops following → Lands inner tokens following) : ArgumentsLand inner tokens := by
  intro steps closing following before context items later hclosing hne hrun
  have hnewline : closing.kind ≠ .newline := by simp [hclosing]
  cases steps with
  | zero => cases hrun
  | succ steps =>
    rw [WalkM.argumentList_succ] at hrun
    obtain ⟨item, ⟨cursor, context'⟩, hvalue, hrun⟩ := bind_eq_ok.1 hrun
    obtain ⟨_, hinner, -⟩ := exists_of_valueOf hvalue
    obtain rfl : cursor = _ := h _ (.mark (by rw [hclosing]; rfl) hnewline) _ _ _ _ hinner
    rw [bind_reading (currentKind_onto hnewline), if_neg (by simp [hclosing]), if_pos hclosing,
      bind_reading (advance_run_onto hnewline (by simp [hclosing]) hne)] at hrun
    cases hrun
    rfl

theorem argumentsLand_more {tokens others : List Token} {comma : Token} (hcomma : comma.kind = .comma)
    (h : ∀ following, Stops following → Lands inner tokens following) (h' : ArgumentsLand inner others) :
    ArgumentsLand inner (tokens ++ comma :: others) := by
  intro steps closing following before context items later hclosing hne hrun
  have hnewline : comma.kind ≠ .newline := by simp [hcomma]
  have hshape : tokens ++ comma :: others ++ closing :: following =
      tokens ++ comma :: (others ++ closing :: following) := by simp
  rw [hshape] at hrun
  cases steps with
  | zero => cases hrun
  | succ steps =>
    rw [WalkM.argumentList_succ] at hrun
    obtain ⟨item, ⟨cursor, context'⟩, hvalue, hrun⟩ := bind_eq_ok.1 hrun
    obtain ⟨_, hinner, -⟩ := exists_of_valueOf hvalue
    obtain rfl : cursor = _ := h _ (.mark (by rw [hcomma]; rfl) hnewline) _ _ _ _ hinner
    rw [bind_reading (currentKind_onto hnewline), if_pos hcomma,
      bind_reading (advance_run_onto hnewline (by simp [hcomma]) (by simp))] at hrun
    obtain ⟨rest, last, hrest, hrun⟩ := bind_eq_ok.1 hrun
    cases hrun
    rw [h' _ _ _ _ _ _ _ hclosing hne hrest]
    simp

/-- The arguments of a call are read up to the closing parenthesis, and that with them. -/
theorem cursor_of_arguments {opening closing : Token} {tokens following : List Token}
    (hopening : opening.kind = .opening .round) (hclosing : closing.kind = .closing .round) (hne : following ≠ [])
    (htokens : tokens ≠ [] → Started tokens ∧ ArgumentsLand inner tokens) {steps : Nat} {before : List Token}
    {context : Context} {items : List Item} {later : Walk}
    (h : WalkM.arguments inner steps ⟨onto before (opening :: (tokens ++ closing :: following)), context⟩ =
      .ok items later) :
    later.cursor = onto ((opening :: (tokens ++ [closing])).reverse ++ before) following := by
  rw [WalkM.arguments, bind_reading (expect_onto hopening (by simp) (by simp) (by simp))] at h
  cases tokens with
  | nil =>
    have hnewline : closing.kind ≠ .newline := by simp [hclosing]
    rw [List.nil_append, bind_reading (currentKind_onto hnewline), if_pos hclosing,
      bind_reading (advance_run_onto hnewline (by simp [hclosing]) hne)] at h
    cases h
    rfl
  | cons token tokens =>
    obtain ⟨⟨first, rest, heq, hstarts, -⟩, hland⟩ := htokens (List.cons_ne_nil _ _)
    cases heq
    have hnot : token.kind ≠ .closing .round := by
      intro hkind
      rw [startsOperand, Token.isKeyword, Token.isUnaryOperator, Token.isOperator, hkind] at hstarts
      cases hstarts
    rw [List.cons_append, bind_reading (currentKind_onto (ne_of_startsOperand hstarts).1), if_neg hnot,
      ← List.cons_append] at h
    rw [hland _ _ _ _ _ _ _ hclosing hne h]
    simp

/-- A call ends behind its arguments, whatever is called. -/
theorem cursor_of_callSite {name opening closing : Token} {tokens following : List Token} (hname : name.kind = .name)
    (hopening : opening.kind = .opening .round) (hclosing : closing.kind = .closing .round) (hne : following ≠ [])
    (htokens : tokens ≠ [] → Started tokens ∧ ArgumentsLand inner tokens) {steps : Nat} {before : List Token}
    {context : Context} {item : Item} {later : Walk}
    (h : WalkM.callSite executor inner steps ⟨onto before (name :: opening :: (tokens ++ closing :: following)),
      context⟩ = .ok item later) :
    later.cursor = onto ((name :: opening :: (tokens ++ [closing])).reverse ++ before) following := by
  have hnewline : name.kind ≠ .newline := by simp [hname]
  have hplace : (name :: opening :: (tokens ++ [closing])).reverse ++ before =
      (opening :: (tokens ++ [closing])).reverse ++ name :: before := by simp
  rw [hplace]
  rw [WalkM.callSite, WalkM.bind_current, bind_get] at h
  dsimp only at h
  rw [current_onto hnewline, if_pos hname] at h
  generalize context.nameKind name.text = nameKind at h
  cases nameKind with
  | function =>
    obtain ⟨result, _, hcall, h⟩ := bind_eq_ok.1 h
    cases h
    rw [WalkM.functionCall, bind_currentLine,
      bind_reading (advance_run_onto hnewline (by simp [hname]) (by simp))] at hcall
    obtain ⟨items, next, harguments, hcall⟩ := bind_eq_ok.1 hcall
    have hstill : Still next later := by
      refine Keeps.ok (Keeps.get.bind fun walk => ?_) hcall
      dsimp only
      split
      · exact still_hostCall _ _ _
      · split
        · exact still_ofContext _
        · exact Keeps.throw _
    rw [hstill]
    exact cursor_of_arguments hopening hclosing hne htokens harguments
  | constructor =>
    dsimp only at h
    rw [WalkM.constructorCall, bind_currentLine,
      bind_reading (advance_run_onto hnewline (by simp [hname]) (by simp))] at h
    obtain ⟨items, next, harguments, h⟩ := bind_eq_ok.1 h
    have hstill : Still next later := by
      refine Keeps.ok (Keeps.get.bind fun walk => ?_) h
      split
      · split
        · exact Keeps.pure _
        · exact Keeps.throw _
      · exact Keeps.throw _
    rw [hstill]
    exact cursor_of_arguments hopening hclosing hne htokens harguments
  | value => cases h
  | undeclared => cases h

end Forms

/-! ## Forms inside an expression -/

theorem reaches_call {name opening closing : Token} {tokens following : List Token} (hname : name.kind = .name)
    (hopening : opening.kind = .opening .round) (hclosing : closing.kind = .closing .round) (hne : following ≠ [])
    (htokens : tokens ≠ [] → Started tokens ∧ ∀ steps, ArgumentsLand (inside executor steps) tokens) :
    Reaches executor (name :: opening :: (tokens ++ [closing])) following := by
  refine reaches_element (by rw [hname]; rfl) (by rw [hname]; rfl)
    fun steps before context element next helement => ?_
  have hnewline : name.kind ≠ .newline := by simp [hname]
  have hshape : opening :: (tokens ++ [closing]) ++ following = opening :: (tokens ++ closing :: following) := by simp
  rw [hshape, onto_cons hnewline, WalkM.element_call hname hopening, ← onto_cons hnewline] at helement
  obtain ⟨item, _, hcall, helement⟩ := bind_eq_ok.1 helement
  cases helement
  exact cursor_of_callSite hname hopening hclosing hne (fun h => ⟨(htokens h).1, (htokens h).2 steps⟩) hcall

theorem reaches_binary {tokens others following : List Token} {operator : Token}
    (hoperator : operator.isBinaryOperator = true) (hne : following ≠ [])
    (h : Reaches executor tokens (operator :: (others ++ following))) (h' : Reaches executor others following) :
    Reaches executor (tokens ++ operator :: others) following := by
  intro steps first waiting before context read later hentering hrun
  have hkind := Laid.kind_of_binary hoperator
  have hshape : tokens ++ operator :: others ++ following = tokens ++ operator :: (others ++ following) := by simp
  have hplace : (tokens ++ operator :: others).reverse ++ before =
      others.reverse ++ operator :: (tokens.reverse ++ before) := by simp
  rw [hshape] at hrun
  rw [hplace]
  obtain ⟨_, _, _, hrun⟩ := h _ first waiting before _ _ _ hentering hrun
  have hinside : (onto (tokens.reverse ++ before) (operator :: (others ++ following))).boundary first
      waiting.isEmpty = .inside :=
    boundary_onto_of_not_starts (by rw [hkind]; rfl) (Laid.startsOperand_of_binary hoperator)
  obtain ⟨_, _, _, hrun⟩ := exists_of_elements_mark hinside (.inr (.inr hkind))
    (List.append_ne_nil_of_right_ne_nil _ hne) hrun
  rw [hkind, track_of_not_bracket rfl] at hrun
  exact h' _ first waiting _ _ _ _ (entering_of_kind (.inr hkind)) hrun

theorem reaches_unary {tokens following : List Token} {sign : Token} (hsign : sign.isUnaryOperator = true)
    (hne : following ≠ []) (h : Reaches executor tokens following) : Reaches executor (sign :: tokens) following := by
  intro steps first waiting before context read later hentering hrun
  have hkind := Laid.kind_of_unary hsign
  have hplace : (sign :: tokens).reverse ++ before = tokens.reverse ++ sign :: before := by simp
  rw [List.cons_append] at hrun
  rw [hplace]
  obtain ⟨_, _, _, hrun⟩ := exists_of_elements_mark (boundary_entering (by rw [hkind]; rfl) hentering)
    (.inr (.inr hkind)) (List.append_ne_nil_of_right_ne_nil _ hne) hrun
  rw [hkind, track_of_not_bracket rfl] at hrun
  exact h _ first waiting _ _ _ _ (entering_of_kind (.inr hkind)) hrun

theorem reaches_ternary {keyword opening closing alternative : Token}
    {conditions positives negatives following : List Token} (hkeyword : keyword.isKeywordOf "if" = true)
    (hopening : opening.kind = .opening .round) (hclosing : closing.kind = .closing .round)
    (halternative : alternative.isKeywordOf "else" = true)
    (hconditions : ∀ steps, Lands (inside executor steps) conditions
      (closing :: (positives ++ alternative :: (negatives ++ following))))
    (hpositives : Laid .expression positives)
    (hpositives' : ∀ steps, Lands (inside executor steps) positives (alternative :: (negatives ++ following)))
    (hnegatives : Laid .expression negatives) (hnegatives' : ∀ steps, Lands (inside executor steps) negatives following)
    (hstops : Stops following) :
    Reaches executor (keyword :: opening :: (conditions ++ closing :: (positives ++ alternative :: negatives)))
      following := by
  have hkind := kind_of_isKeywordOf hkeyword
  have hnewline : keyword.kind ≠ .newline := by simp [hkind]
  refine reaches_element (by rw [hkind]; rfl) (by rw [hkind]; rfl)
    fun steps before context element next helement => ?_
  have hshape : opening :: (conditions ++ closing :: (positives ++ alternative :: negatives)) ++ following =
      opening :: (conditions ++ closing :: (positives ++ alternative :: (negatives ++ following))) := by simp
  rw [hshape, onto_cons hnewline, WalkM.element_if hkeyword, ← onto_cons hnewline] at helement
  obtain ⟨item, _, hternary, helement⟩ := bind_eq_ok.1 helement
  cases helement
  exact cursor_of_ternary hkeyword hopening hclosing halternative (hconditions steps) hpositives (hpositives' steps)
    hnegatives (hnegatives' steps) hstops hternary

theorem reaches_assignment {target sign : Token} {tokens following : List Token} (htarget : target.kind = .name)
    (hsign : sign.kind = .assignment) (hne : following ≠ [])
    (h : ∀ steps, Lands (inside executor steps) tokens following) :
    Reaches executor (target :: sign :: tokens) following := by
  have hnewline : target.kind ≠ .newline := by simp [htarget]
  refine reaches_element (by rw [htarget]; rfl) (by rw [htarget]; rfl)
    fun steps before context element next helement => ?_
  have hpeek : (Cursor.mk before target (sign :: (tokens ++ following))).peek = sign := peek_cons (by simp [hsign])
  have hraw : (Cursor.mk before target (sign :: (tokens ++ following))).peekRaw = sign := rfl
  rw [List.cons_append, onto_cons hnewline, WalkM.element_name htarget (by simp [hraw, hsign])
    (by simp [hpeek, hsign]) (by simp [hpeek, hsign])] at helement
  obtain ⟨item, _, hvalue, helement⟩ := bind_eq_ok.1 helement
  cases helement
  rw [WalkM.nameValue, bind_get] at hvalue
  dsimp only at hvalue
  rw [hpeek, if_pos hsign] at hvalue
  split at hvalue
  · cases hvalue
  · rw [← onto_cons hnewline] at hvalue
    exact cursor_of_assignment htarget hsign hne (h steps) hvalue

/-! ## Laid out tokens -/

/-- What is known of the readings of tokens of a shape. -/
def Read (executor : Executor) : Shape → List Token → Prop
  | .operand, tokens => ∀ following, Clear following → Reaches executor tokens following
  | .expression, tokens => ∀ following, Stops following → Reaches executor tokens following
  | .arguments, tokens => tokens ≠ [] → Started tokens ∧ ∀ steps, ArgumentsLand (inside executor steps) tokens

/-- A laid out expression is read to its end by every reader of expressions inside expressions. -/
theorem Laid.lands {tokens : List Token} (h : Laid .expression tokens) (hread : Read executor .expression tokens)
    (following : List Token) (hstops : Stops following) (steps : Nat) :
    Lands (inside executor steps) tokens following :=
  lands_inside (hread following hstops) (h.ended (by decide)) (h.started (by decide)) hstops steps

theorem Laid.reads {shape : Shape} {tokens : List Token} (h : Laid shape tokens) : Read executor shape tokens := by
  induction h with
  | literal hkind => exact fun _ hclear => reaches_literal hkind hclear
  | name hkind => exact fun _ hclear => reaches_name hkind hclear
  | this hkeyword => exact fun _ hclear => reaches_this hkeyword hclear.ne_nil
  | group hopening hclosing _ ih =>
    intro following hclear
    exact reaches_group hopening hclosing hclear.ne_nil (ih _ (.mark (by rw [hclosing]; rfl) (by simp [hclosing])))
  | call hname hopening hclosing _ ih => exact fun _ hclear => reaches_call hname hopening hclosing hclear.ne_nil ih
  | lambda hlambda => exact fun _ hclear => reaches_lambda hlambda hclear.ne_nil
  | alone _ ih => exact fun following hstops => ih following hstops.clear
  | binary _ hoperator _ ih ih' =>
    intro following hstops
    exact reaches_binary hoperator hstops.clear.ne_nil (ih _ (clear_cons (by simp [kind_of_binary hoperator])))
      (ih' following hstops)
  | unary hsign _ ih => exact fun following hstops => reaches_unary hsign hstops.clear.ne_nil (ih following hstops)
  | ternary hkeyword hopening hconditions hclosing hpositives halternative hnegatives ihc ihp ihn =>
    intro following hstops
    exact reaches_ternary hkeyword hopening hclosing halternative
      (hconditions.lands ihc _ (.mark (by rw [hclosing]; rfl) (by simp [hclosing]))) hpositives
      (hpositives.lands ihp _ (.alternative halternative)) hnegatives (hnegatives.lands ihn _ hstops) hstops
  | assignment htarget hsign htokens ih =>
    intro following hstops
    exact reaches_assignment htarget hsign hstops.clear.ne_nil (htokens.lands ih _ hstops)
  | none => exact fun hne => absurd rfl hne
  | last h ih =>
    exact fun _ => ⟨h.started (by decide), fun steps =>
      argumentsLand_last fun _ hstops => h.lands ih _ hstops steps⟩
  | more h hcomma _ hne ih ih' =>
    exact fun _ => ⟨(h.started (by decide)).append _, fun steps =>
      argumentsLand_more hcomma (fun _ hstops => h.lands ih _ hstops steps) ((ih' hne).2 steps)⟩

/-! ## Agreement -/

/-- The token ends an expression that stands right before it. -/
def Token.delimits (token : Token) : Bool :=
  token.kind = .semicolon || token.kind = .eof || token.kind = .comma || token.isKeywordOf "else" ||
    token.kind.isClosing

theorem stops_of_delimits {token : Token} (h : token.delimits = true) (rest : List Token) : Stops (token :: rest) := by
  simp only [Token.delimits, Bool.or_eq_true, decide_eq_true_iff] at h
  rcases h with (((h | h) | h) | h) | h
  · exact .mark (by rw [h]; rfl) (by simp [h])
  · exact .mark (by rw [h]; rfl) (by simp [h])
  · exact .mark (by rw [h]; rfl) (by simp [h])
  · exact .alternative h
  · refine .mark (by rw [ending, h, Bool.or_true]) fun hkind => ?_
    rw [hkind] at h
    cases h

/-- An operand that ends by itself is no ternary. -/
theorem Laid.not_if {tokens : List Token} (h : Laid .operand tokens) {token : Token}
    (hhead : tokens.head? = some token) : token.isKeywordOf "if" = false := by
  cases h with
  | this hkeyword =>
    cases hhead
    exact isKeywordOf_of_ne hkeyword (by decide)
  | lambda hlambda =>
    obtain ⟨keyword, rest, rfl, hkeyword⟩ := hlambda.exists_keyword
    cases hhead
    exact isKeywordOf_of_ne hkeyword (by decide)
  | literal hkind =>
    cases hhead
    refine WalkM.isKeywordOf_eq_false (fun hkeyword => ?_) "if"
    rw [hkeyword] at hkind
    cases hkind
  | name hkind | group hkind | call hkind =>
    cases hhead
    exact WalkM.isKeywordOf_eq_false (by simp [hkind]) "if"

theorem lands_expression {tokens following : List Token} (h : ∀ steps, Lands (inside executor steps) tokens following) :
    Lands (WalkM.expression executor) tokens following :=
  fun before context expression later hrun => h _ before context expression later hrun

/-- A ternary at the start of an expression is all of it. -/
theorem Laid.cursor_of_ternary {tokens following : List Token} (h : Laid .expression tokens) (hstops : Stops following)
    {before : List Token} {context : Context} {item : Item} {later : Walk}
    (hrun : WalkM.ternary (WalkM.expression executor) ⟨onto before (tokens ++ following), context⟩ = .ok item later) :
    later.cursor = onto (tokens.reverse ++ before) following := by
  obtain ⟨first, rest, hfirst, hstarts, -⟩ := h.started (by decide)
  have hhead : tokens.head? = some first := by
    rw [hfirst]
    rfl
  have hif : first.isKeywordOf "if" = true := by
    rw [WalkM.ternary, bind_currentLine] at hrun
    obtain ⟨_, _, hkeyword, -⟩ := bind_eq_ok.1 hrun
    have hcurrent := (expectKeyword_eq_ok.1 (WalkM.ofCursor_eq_ok hkeyword)).1
    rwa [hfirst, List.cons_append, current_onto (ne_of_startsOperand hstarts).1] at hcurrent
  have hnot (hne : first.isKeywordOf "if" = false) : False := by
    rw [hif] at hne
    cases hne
  cases h with
  | alone hoperand => exact (hnot (hoperand.not_if hhead)).elim
  | binary hoperand =>
    obtain ⟨token, others, rfl, -⟩ := hoperand.started (by decide)
    exact (hnot (hoperand.not_if hhead)).elim
  | unary hsign =>
    cases hhead
    exact (hnot (WalkM.isKeywordOf_eq_false (by simp [kind_of_unary hsign]) _)).elim
  | assignment htarget =>
    cases hhead
    exact (hnot (WalkM.isKeywordOf_eq_false (by simp [htarget]) _)).elim
  | @ternary keyword opening closing alternative conditions positives negatives hkeyword hopening hconditions hclosing
      hpositives halternative hnegatives =>
    have hlands {tokens following : List Token} (h : Laid .expression tokens) (hstops : Stops following) :
        Lands (WalkM.expression executor) tokens following :=
      lands_expression fun steps => h.lands h.reads following hstops steps
    have hshape :
        keyword :: opening :: (conditions ++ closing :: (positives ++ alternative :: negatives)) ++ following =
        keyword :: opening :: (conditions ++ closing :: (positives ++ alternative :: (negatives ++ following))) := by
      simp
    rw [hshape] at hrun
    exact GradualScript.cursor_of_ternary hkeyword hopening hclosing halternative
      (hlands hconditions (.mark (by rw [hclosing]; rfl) (by simp [hclosing]))) hpositives
      (hlands hpositives (.alternative halternative)) hnegatives (hlands hnegatives hstops) hstops hrun

/-- Skipping an expression succeeds and stops at the token behind it. So does reading it, and reading a ternary by
itself with either branch, whenever that succeeds. -/
theorem skip_agrees_with_reading {tokens rest : List Token} {delimiter : Token} {cursor : Cursor}
    (h : Spelled .expression tokens) (hdelimiter : delimiter.delimits = true)
    (hcursor : cursor.current :: cursor.rest = tokens ++ delimiter :: rest) :
    CursorM.skipExpression cursor = .ok () ⟨tokens.reverse ++ cursor.before, delimiter, rest⟩ ∧
      (∀ (executor : Executor) (context : Context) (expression : Expression) (later : Walk),
        WalkM.expression executor ⟨cursor, context⟩ = .ok expression later →
          later.cursor = ⟨tokens.reverse ++ cursor.before, delimiter, rest⟩) ∧
      ∀ (executor : Executor) (context : Context) (item : Item) (later : Walk),
        WalkM.ternary (WalkM.expression executor) ⟨cursor, context⟩ = .ok item later →
          later.cursor = ⟨tokens.reverse ++ cursor.before, delimiter, rest⟩ := by
  have hlaid : Laid .expression tokens := h.laid
  have hstops := stops_of_delimits hdelimiter rest
  have hnewline : delimiter.kind ≠ .newline := by
    intro hkind
    simp [Token.delimits, Token.isKeywordOf, TokenKind.isClosing, hkind] at hdelimiter
  obtain ⟨before, current, following⟩ := cursor
  have hstart : Cursor.mk before current following = onto before (tokens ++ delimiter :: rest) := by
    obtain ⟨first, others, rfl, hstarts, -⟩ := hlaid.started (by decide)
    obtain ⟨rfl, rfl⟩ := List.cons.inj hcursor
    exact (onto_cons (ne_of_startsOperand hstarts).1).symm
  dsimp only
  rw [← onto_cons hnewline, hstart]
  refine ⟨hlaid.skipExpression hstops before, fun executor context expression later hrun => ?_,
    fun executor context item later hrun => hlaid.cursor_of_ternary hstops hrun⟩
  exact lands_expression (hlaid.lands hlaid.reads _ hstops) before context expression later hrun

/-- `lambda (n: Int) { (n)`, a line break and a brace. -/
def spreadLambda : List Token :=
  [⟨.keyword, "lambda", .null⟩, ⟨.opening .round, "(", .null⟩, ⟨.name, "n", .null⟩, ⟨.colon, ":", .null⟩,
    ⟨.name, "Int", .null⟩, ⟨.closing .round, ")", .null⟩, ⟨.opening .curly, "\x7b", .null⟩,
    ⟨.opening .round, "(", .null⟩, ⟨.name, "n", .null⟩, ⟨.closing .round, ")", .null⟩, ⟨.newline, "\n", .null⟩,
    ⟨.closing .curly, "\x7d", .null⟩]

theorem lambdaTokens_spreadLambda : LambdaTokens spreadLambda := by
  have hparameters : ListsParameters [⟨.name, "n", .null⟩, ⟨.colon, ":", .null⟩, ⟨.name, "Int", .null⟩] _ :=
    .last rfl (.typed rfl rfl)
  have hhead : HeadsLambda (⟨.keyword, "lambda", .null⟩ :: ⟨.opening .round, "(", .null⟩ :: (_ ++
      [⟨.closing .round, ")", .null⟩])) _ _ := .mk (by decide) rfl hparameters rfl .absent
  have hbody : ∀ token ∈ [(⟨.opening .round, "(", .null⟩ : Token), ⟨.name, "n", .null⟩, ⟨.closing .round, ")", .null⟩,
      ⟨.newline, "\n", .null⟩], token.kind ≠ .eof := by decide
  refine .mk hhead rfl ?_ ?_ hbody rfl
  · rfl
  · rfl

/-- `if (a) -b else` and the lambda. -/
def branchingTernary : List Token :=
  ⟨.keyword, "if", .null⟩ :: ⟨.opening .round, "(", .null⟩ :: ([⟨.name, "a", .null⟩] ++
    ⟨.closing .round, ")", .null⟩ :: ([⟨.operator, "$-", .null⟩, ⟨.name, "b", .null⟩] ++
      ⟨.keyword, "else", .null⟩ :: spreadLambda))

theorem spelled_branchingTernary : Spelled .expression branchingTernary := by
  have hcondition : Spelled .expression [⟨.name, "a", .null⟩] := @Spelled.single [] _ nofun (.name rfl)
  have hpositive : Spelled .expression [⟨.operator, "$-", .null⟩, ⟨.name, "b", .null⟩] :=
    @Spelled.single [_] _ (by decide) (.name rfl)
  have hnegative : Spelled .expression spreadLambda := @Spelled.single [] _ nofun (.lambda lambdaTokens_spreadLambda)
  exact @Spelled.single [] _ nofun (.ternary (by decide) rfl hcondition rfl hpositive (by decide) hnegative)

theorem skip_agrees_with_reading_branching :
    ∃ cursor : Cursor,
      (Spelled .expression branchingTernary ∧ Token.delimits ⟨.semicolon, ";", .null⟩ = true ∧
        cursor.current :: cursor.rest = branchingTernary ++ ⟨.semicolon, ";", .null⟩ :: [Token.eof]) ∧
      (∀ condition : Bool, ∃ item later, WalkM.ternary (WalkM.expression fun _ _ => ContextM.fault .outOfSteps)
        ⟨cursor, ⟨⟨[⟨"a", true, .any, .bool condition⟩, ⟨"b", true, .any, .int 1⟩], []⟩, .empty, ⟨64⟩, 0⟩⟩ =
          .ok item later) ∧
      CursorM.skipExpression cursor =
        .ok () ⟨branchingTernary.reverse ++ cursor.before, ⟨.semicolon, ";", .null⟩, [Token.eof]⟩ ∧
      (∀ (executor : Executor) (context : Context) (expression : Expression) (later : Walk),
        WalkM.expression executor ⟨cursor, context⟩ = .ok expression later →
          later.cursor = ⟨branchingTernary.reverse ++ cursor.before, ⟨.semicolon, ";", .null⟩, [Token.eof]⟩) ∧
      ∀ (executor : Executor) (context : Context) (item : Item) (later : Walk),
        WalkM.ternary (WalkM.expression executor) ⟨cursor, context⟩ = .ok item later →
          later.cursor = ⟨branchingTernary.reverse ++ cursor.before, ⟨.semicolon, ";", .null⟩, [Token.eof]⟩ := by
  refine ⟨⟨[], ⟨.keyword, "if", .null⟩, branchingTernary.tail ++ [⟨.semicolon, ";", .null⟩, Token.eof]⟩,
    ⟨spelled_branchingTernary, by decide, rfl⟩, fun condition => ?_,
    skip_agrees_with_reading spelled_branchingTernary (by decide) rfl⟩
  cases condition with
  | true => exact ⟨_, _, rfl⟩
  | false => exact ⟨_, _, rfl⟩

end GradualScript
