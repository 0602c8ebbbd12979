import GradualScript.Proofs.Program.Edges

/-!
# Skipping expressions

Branches that are not chosen are passed over token by token. For tokens that spell an expression, this leads right
behind them.

* `Passes` : tokens that a parenthesis is not closed in, as are those of an expression (`passes_phrase`);
* `Skips` : tokens that an expression is skipped over, in an expression that goes on (`skips_term`) or that may end
  behind them (`skips_phrase`);
* `skipExpression_phrase` : skipping an expression.
-/

set_option autoImplicit false

namespace GradualScript

open Cursor

variable {registry : Registry}

/-! ## Groups -/

open CursorM (skipGroupRest currentKind currentKind_onto advance unexpected)

theorem skipGroupRest_succ (start : Token) (steps depth : Nat) : skipGroupRest start (steps + 1) depth = (do
    let kind ← currentKind
    if kind = .eof then unexpected start
    else if kind = .opening .round then do
      let _ ← advance
      skipGroupRest start steps (depth + 1)
    else if kind = .closing .round then
      match depth with
      | 0 => do
        let _ ← advance
      | depth + 1 => do
        let _ ← advance
        skipGroupRest start steps depth
    else do
      let _ ← advance
      skipGroupRest start steps depth) := by
  rw [skipGroupRest]
  congr
  funext kind
  split
  · rfl
  · rfl
  · rfl
  · rfl
  · rename_i heof hopening hzero hclosing
    have hclosing' : kind ≠ .closing .round := by
      intro hkind
      cases depth with
      | zero => exact hzero hkind rfl
      | succ depth => exact hclosing depth hkind rfl
    rw [if_neg heof, if_neg hopening, if_neg hclosing']

/-- The tokens are passed over in a group, whatever is open in it. -/
def Passes (tokens : List Token) : Prop :=
  ∀ (start : Token) (steps depth : Nat) (before following : List Token), following ≠ [] →
    (tokens ++ following).length ≤ steps → ∃ left, following.length ≤ left ∧
      skipGroupRest start steps depth (onto before (tokens ++ following)) =
        skipGroupRest start left depth (onto (tokens.reverse ++ before) following)

theorem passes_nil : Passes [] :=
  fun _ steps _ _ _ _ hsteps => ⟨steps, hsteps, rfl⟩

theorem Passes.append {tokens others : List Token} (h : Passes tokens) (h' : Passes others) :
    Passes (tokens ++ others) := by
  intro start steps depth before following hne hsteps
  rw [List.append_assoc] at hsteps ⊢
  obtain ⟨middle, hmiddle, hrun⟩ := h start steps depth before (others ++ following)
    (List.append_ne_nil_of_right_ne_nil _ hne) hsteps
  obtain ⟨left, hleft, hrun'⟩ := h' start middle depth (tokens.reverse ++ before) following hne hmiddle
  refine ⟨left, hleft, hrun.trans (hrun'.trans ?_)⟩
  rw [List.reverse_append, List.append_assoc]

/-- Any token but a parenthesis is passed over alone. -/
theorem passes_singleton {token : Token} (hending : token.kind ≠ .newline ∧ token.kind ≠ .eof)
    (hround : token.kind ≠ .opening .round ∧ token.kind ≠ .closing .round) : Passes [token] := by
  intro start steps depth before following hne hsteps
  obtain ⟨left, rfl⟩ : ∃ left, steps = left + 1 := ⟨steps - 1, by simp at hsteps; omega⟩
  refine ⟨left, by simp at hsteps; omega, ?_⟩
  rw [List.singleton_append, skipGroupRest_succ, bind_of_ok (currentKind_onto hending.1), if_neg hending.2,
    if_neg hround.1, if_neg hround.2]
  change skipGroupRest start left depth (onto before (token :: following)).advance = _
  rw [advance_onto hending.1 hending.2 hne]
  rfl

/-- A pair of parentheses is passed over if what is in it is. -/
theorem Passes.group {opening closing : Token} {tokens : List Token} (h : Passes tokens)
    (hopening : opening.kind = .opening .round) (hclosing : closing.kind = .closing .round) :
    Passes (opening :: (tokens ++ [closing])) := by
  intro start steps depth before following hne hsteps
  obtain ⟨steps, rfl⟩ : ∃ left, steps = left + 1 := ⟨steps - 1, by simp at hsteps; omega⟩
  have hshape : opening :: (tokens ++ [closing]) ++ following = opening :: (tokens ++ closing :: following) := by simp
  rw [hshape] at hsteps ⊢
  obtain ⟨middle, hmiddle, hrun⟩ := h start steps (depth + 1) (opening :: before) (closing :: following)
    (List.cons_ne_nil _ _) (by simp at hsteps ⊢; omega)
  obtain ⟨left, rfl⟩ : ∃ left, middle = left + 1 := ⟨middle - 1, by simp at hmiddle; omega⟩
  refine ⟨left, by simp at hmiddle; omega, ?_⟩
  have hnewline : opening.kind ≠ .newline := by rw [hopening]; exact TokenKind.noConfusion
  have hnewline' : closing.kind ≠ .newline := by rw [hclosing]; exact TokenKind.noConfusion
  calc skipGroupRest start (steps + 1) depth (onto before (opening :: (tokens ++ closing :: following)))
      = skipGroupRest start steps (depth + 1)
          (onto before (opening :: (tokens ++ closing :: following))).advance := by
        rw [skipGroupRest_succ, bind_of_ok (currentKind_onto hnewline), hopening]
        rfl
    _ = skipGroupRest start steps (depth + 1) (onto (opening :: before) (tokens ++ closing :: following)) := by
        rw [advance_onto hnewline (by rw [hopening]; exact TokenKind.noConfusion) (by simp)]
    _ = skipGroupRest start (left + 1) (depth + 1)
          (onto (tokens.reverse ++ opening :: before) (closing :: following)) := hrun
    _ = skipGroupRest start left depth
          (onto (tokens.reverse ++ opening :: before) (closing :: following)).advance := by
        rw [skipGroupRest_succ, bind_of_ok (currentKind_onto hnewline'), hclosing]
        rfl
    _ = skipGroupRest start left depth (onto ((opening :: (tokens ++ [closing])).reverse ++ before) following) := by
        rw [advance_onto hnewline' (by rw [hclosing]; exact TokenKind.noConfusion) hne]
        simp

/-- The kinds of tokens that a group takes in as they are. -/
def passable (kind : TokenKind) : Bool :=
  !(kind = .newline || kind = .eof || kind = .opening .round || kind = .closing .round)

theorem passes_face {token : Token} {face : Face} (h : token.face = face) (hkind : passable face.kind = true) :
    Passes [token] := by
  rw [← Token.kind_of_face h, passable, Bool.not_eq_true'] at hkind
  simp only [Bool.or_eq_false_iff, decide_eq_false_iff_not] at hkind
  obtain ⟨⟨⟨hnewline, heof⟩, hopening⟩, hclosing⟩ := hkind
  exact passes_singleton ⟨hnewline, heof⟩ ⟨hopening, hclosing⟩

theorem Literal.passable (literal : Literal) : GradualScript.passable literal.kind = true := by
  obtain ⟨kind, text, h⟩ := literal
  cases kind with
  | int | float | string | char | bool => rfl
  | _ => cases h

mutual

theorem passes_term : ∀ (term : Term) {tokens : List Token}, tokens.map Token.face = term.faces → Passes tokens
  | .literal literal, _, h => by
    obtain ⟨token, rfl, htoken⟩ := List.map_eq_singleton_iff.1 h
    exact passes_face htoken literal.passable
  | .name name, _, h => by
    obtain ⟨token, rfl, htoken⟩ := List.map_eq_singleton_iff.1 h
    exact passes_face htoken rfl
  | .call function arguments, _, h => by
    obtain ⟨name, _, rfl, hname, h⟩ := List.map_eq_cons_iff.1 h
    obtain ⟨opening, _, rfl, hopening, h⟩ := List.map_eq_cons_iff.1 h
    obtain ⟨values, _, rfl, hvalues, h⟩ := List.map_eq_append_iff.1 h
    obtain ⟨closing, rfl, hclosing⟩ := List.map_eq_singleton_iff.1 h
    exact (passes_face hname rfl).append
      ((passes_arguments arguments hvalues).group (Token.kind_of_face hopening) (Token.kind_of_face hclosing))
  | .paren inner, _, h => by
    obtain ⟨opening, _, rfl, hopening, h⟩ := List.map_eq_cons_iff.1 h
    obtain ⟨values, _, rfl, hvalues, h⟩ := List.map_eq_append_iff.1 h
    obtain ⟨closing, rfl, hclosing⟩ := List.map_eq_singleton_iff.1 h
    exact (passes_phrase inner hvalues).group (Token.kind_of_face hopening) (Token.kind_of_face hclosing)
  | .unary op operand, _, h => by
    obtain ⟨operator, _, rfl, hoperator, h⟩ := List.map_eq_cons_iff.1 h
    exact (passes_face hoperator rfl).append (passes_term operand h)
  | .binary op left right, _, h => by
    obtain ⟨lefts, _, rfl, hleft, h⟩ := List.map_eq_append_iff.1 h
    obtain ⟨operator, _, rfl, hoperator, h⟩ := List.map_eq_cons_iff.1 h
    exact (passes_term left hleft).append ((passes_face hoperator rfl).append (passes_term right h))

theorem passes_phrase : ∀ (phrase : Phrase) {tokens : List Token}, tokens.map Token.face = phrase.faces →
    Passes tokens
  | .term term, _, h => passes_term term h
  | .assignment name value, _, h => by
    obtain ⟨target, _, rfl, htarget, h⟩ := List.map_eq_cons_iff.1 h
    obtain ⟨sign, _, rfl, hsign, h⟩ := List.map_eq_cons_iff.1 h
    exact (passes_face htarget rfl).append
      ((passes_face hsign rfl).append (passes_phrase value h))
  | .ternary condition positive negative, _, h => by
    obtain ⟨keyword, _, rfl, hkeyword, h⟩ := List.map_eq_cons_iff.1 h
    obtain ⟨opening, _, rfl, hopening, h⟩ := List.map_eq_cons_iff.1 h
    obtain ⟨conditions, _, rfl, hcondition, h⟩ := List.map_eq_append_iff.1 h
    obtain ⟨closing, _, rfl, hclosing, h⟩ := List.map_eq_cons_iff.1 h
    obtain ⟨positives, _, rfl, hpositive, h⟩ := List.map_eq_append_iff.1 h
    obtain ⟨alternative, negatives, rfl, halternative, h⟩ := List.map_eq_cons_iff.1 h
    have hgroup := (passes_phrase condition hcondition).group (Token.kind_of_face hopening)
      (Token.kind_of_face hclosing)
    have hbranches := (passes_phrase positive hpositive).append
      ((passes_face halternative rfl).append (passes_phrase negative h))
    have hall := (passes_face hkeyword rfl).append (hgroup.append hbranches)
    simpa using hall

theorem passes_arguments : ∀ (arguments : List Phrase) {tokens : List Token},
    tokens.map Token.face = argumentFaces arguments → Passes tokens
  | [], _, h => by
    obtain rfl := List.map_eq_nil_iff.1 h
    exact passes_nil
  | [last], _, h => passes_phrase last h
  | first :: second :: rest, _, h => by
    obtain ⟨values, _, rfl, hfirst, h⟩ := List.map_eq_append_iff.1 h
    obtain ⟨comma, _, rfl, hcomma, h⟩ := List.map_eq_cons_iff.1 h
    exact (passes_phrase first hfirst).append
      ((passes_face hcomma rfl).append (passes_arguments (second :: rest) h))

end

/-- Skipping a group in parentheses. -/
theorem skipGroup_onto {opening closing : Token} {tokens : List Token} (h : Passes tokens)
    (hopening : opening.kind = .opening .round) (hclosing : closing.kind = .closing .round)
    (hhead : ∀ token, tokens.head? = some token → token.kind ≠ .newline) (before : List Token)
    {following : List Token} (hne : following ≠ []) :
    CursorM.skipGroup (onto before (opening :: (tokens ++ closing :: following))) =
      .ok () (onto ((opening :: (tokens ++ [closing])).reverse ++ before) following) := by
  have hnewline : closing.kind ≠ .newline := by simp [hclosing]
  obtain ⟨token, rest, hcons, htoken⟩ : ∃ token rest, tokens ++ closing :: following = token :: rest ∧
      token.kind ≠ .newline := by
    cases tokens with
    | nil => exact ⟨closing, following, rfl, hnewline⟩
    | cons token tokens => exact ⟨token, tokens ++ closing :: following, rfl, hhead token rfl⟩
  obtain ⟨left, hleft, hrun⟩ := h opening (tokens ++ closing :: following).length 0 (opening :: before)
    (closing :: following) (List.cons_ne_nil _ _) (Nat.le_refl _)
  obtain ⟨steps, rfl⟩ : ∃ steps, left = steps + 1 := ⟨left - 1, by simp at hleft; omega⟩
  rw [CursorM.skipGroup, bind_of_ok (CursorM.expect_onto hopening (by simp) (by simp) (by simp))]
  rw [hcons, CursorM.bounded_onto htoken, ← hcons, hrun, skipGroupRest_succ, bind_of_ok (currentKind_onto hnewline),
    hclosing]
  change EStateM.Result.ok () (onto _ (closing :: following)).advance = _
  rw [advance_onto hnewline (by simp [hclosing]) hne]
  simp

/-! ## Expressions -/

open CursorM (skipRest)

/-- The tokens are skipped over in an expression that goes on with `following`. -/
def Skips (tokens following : List Token) : Prop :=
  ∀ (steps first : Nat) (waiting : List TokenKind) (before : List Token), Entering first before →
    (tokens ++ following).length ≤ steps → ∃ left, following.length ≤ left ∧
      skipRest steps first waiting (onto before (tokens ++ following)) =
        skipRest left first waiting (onto (tokens.reverse ++ before) following)

/-- Skipping one token that is no call, ternary or lambda. -/
theorem skipRest_token {steps first : Nat} {waiting : List TokenKind} {before rest : List Token} {token : Token}
    (hinside : (onto before (token :: rest)).boundary first waiting.isEmpty = .inside)
    (hcall : token.kind.isObject = true → ∀ next, rest.head? = some next → next.kind ≠ .opening .round)
    (hword : token.isKeywordOf "if" = false ∧ token.isKeywordOf "lambda" = false)
    (hending : token.kind ≠ .newline ∧ token.kind ≠ .eof) (hne : rest ≠ []) :
    skipRest (steps + 1) first waiting (onto before (token :: rest)) =
      skipRest steps first (track waiting token.kind) (onto (token :: before) rest) := by
  have hcalled : ((onto before (token :: rest)).current.kind.isObject &&
      decide ((onto before (token :: rest)).peekRaw.kind = .opening .round)) = false := by
    rw [onto_cons hending.1]
    cases hobject : token.kind.isObject with
    | false => rfl
    | true =>
      cases rest with
      | nil => exact absurd rfl hne
      | cons next rest =>
        change (true && decide (next.kind = .opening .round)) = false
        rw [Bool.true_and, decide_eq_false (hcall hobject next rfl)]
  rw [skipRest, bind_get, hinside]
  dsimp only
  rw [hcalled, current_onto hending.1, hword.1, hword.2]
  simp only [Bool.false_eq_true, if_false]
  rw [bind_of_ok (CursorM.advance_run_onto hending.1 hending.2 hne)]

theorem skipRest_take {steps first : Nat} {waiting : List TokenKind} {before rest : List Token} {token : Token}
    (hinside : (onto before (token :: rest)).boundary first waiting.isEmpty = .inside)
    (hcall : token.kind.isObject = true → ∀ next, rest.head? = some next → next.kind ≠ .opening .round)
    (hkeyword : token.kind ≠ .keyword)
    (hending : token.kind ≠ .newline ∧ token.kind ≠ .eof) (hne : rest ≠ []) :
    skipRest (steps + 1) first waiting (onto before (token :: rest)) =
      skipRest steps first (track waiting token.kind) (onto (token :: before) rest) := by
  have hword : ∀ word, token.isKeywordOf word = false := by
    intro word
    rw [Token.isKeywordOf, decide_eq_false hkeyword, Bool.false_and]
  exact skipRest_token hinside hcall ⟨hword _, hword _⟩ hending hne

/-- Skipping an expression of its own, which ends behind its tokens. -/
theorem skipRest_alone {tokens following : List Token} (h : Skips tokens following) (hended : Ended tokens)
    (hstarted : Started tokens) (hstops : Stops following) {steps : Nat} (before : List Token)
    (hsteps : (tokens ++ following).length ≤ steps) :
    (do CursorM.skipLineBreaks; skipRest steps (← get).position [] : CursorM Unit)
        (onto before (tokens ++ following)) =
      .ok () (onto (tokens.reverse ++ before) following) := by
  obtain ⟨left, hleft, hrun⟩ := h steps before.length [] before (.inl rfl) hsteps
  obtain ⟨steps', rfl⟩ : ∃ steps', left = steps' + 1 := by
    have hne := hstops.clear.length_pos
    exact ⟨left - 1, by omega⟩
  have hstop : skipRest (steps' + 1) before.length [] (onto (tokens.reverse ++ before) following) =
      .ok () (onto (tokens.reverse ++ before) following) := by
    rw [skipRest, bind_get]
    dsimp only [List.isEmpty]
    rw [hended.boundary hstops]
    rfl
  obtain ⟨token, rest, rfl, hstarts, -⟩ := hstarted
  have hnewline := (ne_of_startsOperand hstarts).1
  rw [List.cons_append, bind_of_ok (CursorM.skipLineBreaks_run_onto hnewline), bind_get]
  have hposition : (onto before (token :: (rest ++ following))).position = before.length := by
    rw [onto_cons hnewline]
    rfl
  rw [hposition, ← List.cons_append, hrun, hstop]

/-- A name or a literal that is not called. -/
theorem skips_object {token : Token} (h : token.kind.isObject = true) {following : List Token}
    (hne : following ≠ []) (hraw : ∀ next, following.head? = some next → next.kind ≠ .opening .round) :
    Skips [token] following := by
  intro steps first waiting before hentering hsteps
  obtain ⟨left, rfl⟩ : ∃ left, steps = left + 1 := ⟨steps - 1, by simp at hsteps; omega⟩
  obtain ⟨kind, text, span⟩ := token
  refine ⟨left, by simp at hsteps; omega, ?_⟩
  rw [List.singleton_append]
  cases kind with
  | name | int | float | string | char | bool =>
    rw [skipRest_take (boundary_entering rfl hentering) (fun _ => hraw) (by simp) (by simp) hne]
    rfl
  | _ => cases h

theorem skips_call {name opening closing : Token} {values following : List Token} (hname : name.kind = .name)
    (hopening : opening.kind = .opening .round) (hclosing : closing.kind = .closing .round) (hvalues : Passes values)
    (hhead : ∀ token, values.head? = some token → token.kind ≠ .newline) (hne : following ≠ []) :
    Skips (name :: opening :: (values ++ [closing])) following := by
  intro steps first waiting before hentering hsteps
  obtain ⟨left, rfl⟩ : ∃ left, steps = left + 1 := ⟨steps - 1, by simp at hsteps; omega⟩
  refine ⟨left, by simp at hsteps; omega, ?_⟩
  have hshape : name :: opening :: (values ++ [closing]) ++ following =
      name :: opening :: (values ++ closing :: following) := by simp
  have hnewline : name.kind ≠ .newline := by simp [hname]
  have hinside : (onto before (name :: opening :: (values ++ closing :: following))).boundary first waiting.isEmpty =
      .inside := boundary_entering (by rw [hname]; rfl) hentering
  have hcalled : ((onto before (name :: opening :: (values ++ closing :: following))).current.kind.isObject &&
      decide ((onto before (name :: opening :: (values ++ closing :: following))).peekRaw.kind =
        .opening .round)) = true := by
    rw [onto_cons hnewline]
    change (name.kind.isObject && decide (opening.kind = .opening .round)) = true
    rw [hname, hopening]
    rfl
  rw [hshape, skipRest, bind_get, hinside]
  dsimp only
  rw [hcalled, if_pos rfl, bind_of_ok (CursorM.advance_run_onto hnewline (by simp [hname]) (by simp)),
    bind_of_ok (skipGroup_onto hvalues hopening hclosing hhead _ hne)]
  simp

theorem skips_paren {opening closing : Token} {values following : List Token}
    (hopening : opening.kind = .opening .round) (hclosing : closing.kind = .closing .round)
    (hvalues : Skips values (closing :: following)) (hne : following ≠ []) :
    Skips (opening :: (values ++ [closing])) following := by
  intro steps first waiting before hentering hsteps
  obtain ⟨steps, rfl⟩ : ∃ left, steps = left + 1 := ⟨steps - 1, by simp at hsteps; omega⟩
  have hshape : opening :: (values ++ [closing]) ++ following = opening :: (values ++ closing :: following) := by simp
  have henter : Entering first (opening :: before) := by
    refine entering_cons (by simp [hopening]) ?_
    rw [endsOperand, Token.isKeyword, hopening]
    rfl
  obtain ⟨middle, hmiddle, hrun⟩ := hvalues steps first (.opening .round :: waiting) (opening :: before) henter
    (by simp at hsteps ⊢; omega)
  obtain ⟨left, rfl⟩ : ∃ left, middle = left + 1 := ⟨middle - 1, by simp at hmiddle; omega⟩
  refine ⟨left, by simp at hmiddle; omega, ?_⟩
  have hinside : (onto before (opening :: (values ++ closing :: following))).boundary first waiting.isEmpty =
      .inside := boundary_entering (by rw [hopening]; rfl) hentering
  have hinside' : (onto (values.reverse ++ opening :: before) (closing :: following)).boundary first
      (TokenKind.opening .round :: waiting).isEmpty = .inside := boundary_onto_closing hclosing
  rw [hshape, skipRest_take hinside (by rw [hopening]; exact fun h => (by cases h)) (by simp [hopening])
    (by simp [hopening]) (by simp), hopening, track_opening, hrun]
  rw [skipRest_take hinside' (by rw [hclosing]; exact fun h => (by cases h)) (by simp [hclosing])
    (by simp [hclosing]) hne, hclosing, track_closing]
  simp

/-- Operators and the sign of an assignment are skipped as they are, and an operand may start behind them. -/
theorem skipRest_sign {steps first : Nat} {waiting : List TokenKind} {before rest : List Token} {token : Token}
    (h : token.kind = .operator ∨ token.kind = .assignment)
    (hinside : (onto before (token :: rest)).boundary first waiting.isEmpty = .inside) (hne : rest ≠ []) :
    skipRest (steps + 1) first waiting (onto before (token :: rest)) =
        skipRest steps first waiting (onto (token :: before) rest) ∧ Entering first (token :: before) := by
  rcases h with hkind | hkind
  · refine ⟨?_, entering_cons (by simp [hkind]) (by rw [endsOperand, Token.isKeyword, hkind]; rfl)⟩
    rw [skipRest_take hinside (by rw [hkind]; exact fun h => (by cases h)) (by simp [hkind]) (by simp [hkind]) hne,
      hkind, track_of_not_bracket rfl]
  · refine ⟨?_, entering_cons (by simp [hkind]) (by rw [endsOperand, Token.isKeyword, hkind]; rfl)⟩
    rw [skipRest_take hinside (by rw [hkind]; exact fun h => (by cases h)) (by simp [hkind]) (by simp [hkind]) hne,
      hkind, track_of_not_bracket rfl]

theorem skips_unary {operator : Token} {operands following : List Token} (hoperator : operator.kind = .operator)
    (h : Skips operands following) (hne : following ≠ []) : Skips (operator :: operands) following := by
  intro steps first waiting before hentering hsteps
  obtain ⟨steps, rfl⟩ : ∃ left, steps = left + 1 := ⟨steps - 1, by simp at hsteps; omega⟩
  have hinside : (onto before (operator :: (operands ++ following))).boundary first waiting.isEmpty = .inside :=
    boundary_entering (by rw [hoperator]; rfl) hentering
  obtain ⟨hsign, henter⟩ := skipRest_sign (.inl hoperator) hinside (List.append_ne_nil_of_right_ne_nil _ hne)
  obtain ⟨left, hleft, hrun⟩ := h steps first waiting (operator :: before) henter (by simp at hsteps ⊢; omega)
  refine ⟨left, hleft, ?_⟩
  rw [List.cons_append, hsign, hrun]
  simp

/-- An operand, an operator or a sign that starts no operand, and what stands behind that. -/
theorem skips_joined {sign : Token} {tokens others following : List Token}
    (hsign : sign.kind = .operator ∨ sign.kind = .assignment) (hstarts : startsOperand sign = false)
    (h : Skips tokens (sign :: (others ++ following))) (h' : Skips others following) (hne : following ≠ []) :
    Skips (tokens ++ sign :: others) following := by
  intro steps first waiting before hentering hsteps
  have hshape : tokens ++ sign :: others ++ following = tokens ++ sign :: (others ++ following) := by simp
  rw [hshape] at hsteps ⊢
  obtain ⟨middle, hmiddle, hrun⟩ := h steps first waiting before hentering hsteps
  obtain ⟨steps', rfl⟩ : ∃ left, middle = left + 1 := ⟨middle - 1, by simp at hmiddle; omega⟩
  have hending : ending sign.kind = false := by rcases hsign with hkind | hkind <;> rw [hkind] <;> rfl
  have hinside : (onto (tokens.reverse ++ before) (sign :: (others ++ following))).boundary first waiting.isEmpty =
      .inside := boundary_onto_of_not_starts hending hstarts
  obtain ⟨htake, henter⟩ := skipRest_sign hsign hinside (List.append_ne_nil_of_right_ne_nil _ hne)
  obtain ⟨left, hleft, hrun'⟩ := h' steps' first waiting _ henter (by simp at hmiddle ⊢; omega)
  refine ⟨left, hleft, ?_⟩
  rw [hrun, htake, hrun']
  simp

theorem skips_ternary {keyword opening closing alternative : Token}
    {conditions positives negatives following : List Token} (hkeyword : keyword.isKeywordOf "if" = true)
    (hopening : opening.kind = .opening .round) (hclosing : closing.kind = .closing .round)
    (helse : alternative.isKeywordOf "else" = true) (hcondition : Passes conditions)
    (hstarted : Started conditions) (hstops : Stops following)
    (hpositive : Skips positives (alternative :: (negatives ++ following)))
    (hpositive' : Ended positives ∧ Started positives) (hnegative : Skips negatives following)
    (hnegative' : Ended negatives ∧ Started negatives) :
    Skips (keyword :: opening :: (conditions ++ closing :: (positives ++ alternative :: negatives))) following := by
  intro steps first waiting before hentering hsteps
  obtain ⟨left, rfl⟩ : ∃ left, steps = left + 1 := ⟨steps - 1, by simp at hsteps; omega⟩
  refine ⟨left, by simp at hsteps; omega, ?_⟩
  have hshape : keyword :: opening :: (conditions ++ closing :: (positives ++ alternative :: negatives)) ++
      following = keyword :: opening ::
        (conditions ++ closing :: (positives ++ alternative :: (negatives ++ following))) := by simp
  have hkind := kind_of_isKeywordOf hkeyword
  have hnewline : keyword.kind ≠ .newline := by simp [hkind]
  rw [hshape]
  generalize htokens : keyword :: opening ::
    (conditions ++ closing :: (positives ++ alternative :: (negatives ++ following))) = tokens
  have hinside : (onto before tokens).boundary first waiting.isEmpty = .inside := by
    rw [← htokens]
    exact boundary_entering (by rw [hkind]; rfl) hentering
  have hcurrent : (onto before tokens).current = keyword := by
    rw [← htokens]
    exact current_onto hnewline
  have hternary : CursorM.skipTernary (do CursorM.skipLineBreaks; skipRest left (← get).position [])
      (onto before tokens) = .ok () (onto ((keyword :: opening :: (conditions ++ closing ::
        (positives ++ alternative :: negatives))).reverse ++ before) following) := by
    rw [← htokens, CursorM.skipTernary, bind_of_ok (CursorM.expectKeyword_onto hkeyword (by simp)),
      bind_of_ok (skipGroup_onto hcondition hopening hclosing (fun _ => hstarted.head_ne_newline) _ (by simp)),
      bind_of_ok (skipRest_alone hpositive hpositive'.1 hpositive'.2 (.alternative helse) _
        (by simp at hsteps ⊢; omega)),
      bind_of_ok (CursorM.expectKeyword_onto helse
        (List.append_ne_nil_of_right_ne_nil _ hstops.clear.ne_nil)),
      skipRest_alone hnegative hnegative'.1 hnegative'.2 hstops _ (by simp at hsteps ⊢; omega)]
    simp
  rw [skipRest, bind_get, hinside]
  dsimp only
  rw [hcurrent, hkind, hkeyword]
  exact bind_of_ok hternary

mutual

theorem skips_term : ∀ (term : Term) {tokens following : List Token}, term.Valid registry →
    tokens.map Token.face = term.faces → Clear following → Skips tokens following
  | .literal literal, _, _, _, h, hclear => by
    obtain ⟨token, rfl, htoken⟩ := List.map_eq_singleton_iff.1 h
    refine skips_object ?_ hclear.ne_nil hclear.raw
    rw [Token.kind_of_face htoken, TokenKind.isObject, literal.isLiteral, Bool.or_true]
  | .name name, _, _, _, h, hclear => by
    obtain ⟨token, rfl, htoken⟩ := List.map_eq_singleton_iff.1 h
    exact skips_object (by rw [Token.kind_of_face htoken]; rfl) hclear.ne_nil hclear.raw
  | .call function arguments, _, _, hvalid, h, hclear => by
    obtain ⟨name, _, rfl, hname, h⟩ := List.map_eq_cons_iff.1 h
    obtain ⟨opening, _, rfl, hopening, h⟩ := List.map_eq_cons_iff.1 h
    obtain ⟨values, _, rfl, hvalues, h⟩ := List.map_eq_append_iff.1 h
    obtain ⟨closing, rfl, hclosing⟩ := List.map_eq_singleton_iff.1 h
    exact skips_call (Token.kind_of_face hname) (Token.kind_of_face hopening) (Token.kind_of_face hclosing)
      (passes_arguments arguments hvalues) (arguments_head_ne arguments hvalid.2 hvalues) hclear.ne_nil
  | .paren inner, _, _, hvalid, h, hclear => by
    obtain ⟨opening, _, rfl, hopening, h⟩ := List.map_eq_cons_iff.1 h
    obtain ⟨values, _, rfl, hvalues, h⟩ := List.map_eq_append_iff.1 h
    obtain ⟨closing, rfl, hclosing⟩ := List.map_eq_singleton_iff.1 h
    have hclosing : closing.kind = .closing .round := Token.kind_of_face hclosing
    refine skips_paren (Token.kind_of_face hopening) hclosing ?_ hclear.ne_nil
    exact skips_phrase inner hvalid hvalues (.mark (by rw [hclosing]; rfl) (by simp [hclosing]))
  | .unary op operand, _, _, hvalid, h, hclear => by
    obtain ⟨operator, _, rfl, hoperator, h⟩ := List.map_eq_cons_iff.1 h
    exact skips_unary (Token.kind_of_face hoperator) (skips_term operand hvalid.2.2 h hclear) hclear.ne_nil
  | .binary op left right, _, _, hvalid, h, hclear => by
    obtain ⟨lefts, _, rfl, hleft, h⟩ := List.map_eq_append_iff.1 h
    obtain ⟨operator, _, rfl, hoperator, h⟩ := List.map_eq_cons_iff.1 h
    have hkind : operator.kind = .operator := Token.kind_of_face hoperator
    have hstarts := (startsOperand_operator hkind (Token.text_of_face hoperator rfl)).trans hvalid.1
    refine skips_joined (.inl hkind) hstarts ?_ (skips_term right hvalid.2.2.2.2 h hclear) hclear.ne_nil
    exact skips_term left hvalid.2.2.2.1 hleft (clear_cons (by simp [hkind]))

theorem skips_phrase : ∀ (phrase : Phrase) {tokens following : List Token}, phrase.Valid registry →
    tokens.map Token.face = phrase.faces → Stops following → Skips tokens following
  | .term term, _, _, hvalid, h, hstops => skips_term term hvalid h hstops.clear
  | .assignment name value, _, following, hvalid, h, hstops => by
    obtain ⟨target, _, rfl, htarget, h⟩ := List.map_eq_cons_iff.1 h
    obtain ⟨sign, values, rfl, hsign, h⟩ := List.map_eq_cons_iff.1 h
    have hkind : sign.kind = .assignment := Token.kind_of_face hsign
    have hstarts : startsOperand sign = false := by
      rw [startsOperand, Token.isKeyword, Token.isUnaryOperator, Token.isOperator, hkind]
      rfl
    have hskips : Skips [target] (sign :: (values ++ following)) := skips_object
      (by rw [Token.kind_of_face htarget]; rfl) (List.cons_ne_nil _ _) fun next hnext => by
        cases hnext
        simp [hkind]
    exact skips_joined (.inr hkind) hstarts hskips (skips_phrase value hvalid h hstops) hstops.clear.ne_nil
  | .ternary condition positive negative, _, _, hvalid, h, hstops => by
    obtain ⟨keyword, _, rfl, hkeyword, h⟩ := List.map_eq_cons_iff.1 h
    obtain ⟨opening, _, rfl, hopening, h⟩ := List.map_eq_cons_iff.1 h
    obtain ⟨conditions, _, rfl, hcondition, h⟩ := List.map_eq_append_iff.1 h
    obtain ⟨closing, _, rfl, hclosing, h⟩ := List.map_eq_cons_iff.1 h
    obtain ⟨positives, _, rfl, hpositive, h⟩ := List.map_eq_append_iff.1 h
    obtain ⟨alternative, negatives, rfl, halternative, h⟩ := List.map_eq_cons_iff.1 h
    obtain ⟨hvalid, hvalid', hvalid''⟩ := hvalid
    have helse := Token.isKeywordOf_of_face halternative
    exact skips_ternary (Token.isKeywordOf_of_face hkeyword) (Token.kind_of_face hopening)
      (Token.kind_of_face hclosing) helse (passes_phrase condition hcondition)
      (started_phrase condition hvalid hcondition) hstops
      (skips_phrase positive hvalid' hpositive (.alternative helse))
      ⟨ended_phrase positive hpositive, started_phrase positive hvalid' hpositive⟩
      (skips_phrase negative hvalid'' h hstops) ⟨ended_phrase negative h, started_phrase negative hvalid'' h⟩

end

/-- Skipping the tokens of an expression leads to what stands behind them. -/
theorem skipExpression_of_skips {tokens following : List Token} (h : Skips tokens following) (hended : Ended tokens)
    (hstarted : Started tokens) (hstops : Stops following) (before : List Token) :
    CursorM.skipExpression (onto before (tokens ++ following)) =
      .ok () (onto (tokens.reverse ++ before) following) := by
  have halone := skipRest_alone h hended hstarted hstops before (Nat.le_refl _)
  obtain ⟨token, rest, rfl, hstarts, -⟩ := hstarted
  have hnewline := (ne_of_startsOperand hstarts).1
  rw [List.cons_append] at halone ⊢
  rw [bind_of_ok (CursorM.skipLineBreaks_run_onto hnewline), bind_get] at halone
  rw [CursorM.skipExpression, bind_of_ok (CursorM.skipLineBreaks_run_onto hnewline), bind_get,
    CursorM.bounded_onto hnewline, halone]

/-- An expression is skipped over to what stands behind it. -/
theorem skipExpression_phrase (phrase : Phrase) {tokens following : List Token} (hvalid : phrase.Valid registry)
    (h : tokens.map Token.face = phrase.faces) (hstops : Stops following) (before : List Token) :
    CursorM.skipExpression (onto before (tokens ++ following)) =
      .ok () (onto (tokens.reverse ++ before) following) :=
  skipExpression_of_skips (skips_phrase phrase hvalid h hstops) (ended_phrase phrase h)
    (started_phrase phrase hvalid h) hstops before

end GradualScript
