import GradualScript.Proofs.Expression.Layout
import GradualScript.Proofs.Program.Skipping

/-!
# Skipping laid out expressions

* `lambdaHead_onto`, `lambda_onto` : reading a lambda leads to the brace behind its head, and from there right behind
  its closing brace;
* `Laid.passes` : no token of an expression closes a parenthesis around it;
* `Laid.skips` : an expression is skipped over to what stands behind it.
-/

set_option autoImplicit false

namespace GradualScript

open Cursor

/-! ## Bodies in braces -/

/-- Tokens that close no brace around them belong to the body. -/
theorem Token.curlyBody?_append {depth depth' : Nat} {tokens : List Token} (rest : List Token)
    (h : depthBehind? .curly depth tokens = some depth') :
    curlyBody? depth (tokens ++ rest) = (curlyBody? depth' rest).map (tokens ++ ·) := by
  induction tokens generalizing depth with
  | nil =>
    cases h
    rw [List.nil_append]
    cases curlyBody? depth' rest <;> rfl
  | cons token tokens ih =>
    rw [depthBehind?_cons] at h
    rw [List.cons_append, curlyBody?_cons]
    split at h
    · rename_i hopening
      rw [if_pos hopening, ih h, Option.map_map]
      rfl
    · rename_i hopening
      rw [if_neg hopening]
      split at h
      · rename_i hclosing
        rw [if_pos hclosing]
        cases depth with
        | zero => cases h
        | succ depth =>
          dsimp only
          rw [ih h, Option.map_map]
          rfl
      · rename_i hclosing
        rw [if_neg hclosing, ih h, Option.map_map]
        rfl

theorem Token.curlyBody?_balanced {tokens rest : List Token} {close : Token} (h : Balanced .curly tokens)
    (hclose : close.kind = .closing .curly) : curlyBody? 0 (tokens ++ close :: rest) = some tokens := by
  have hend : curlyBody? 0 (close :: rest) = some [] := by
    rw [curlyBody?_cons, hclose]
    rfl
  rw [curlyBody?_append _ h, hend, Option.map_some, List.append_nil]

/-- Stepping over tokens leads to the one behind them. -/
theorem Cursor.repeat_step_append (before : List Token) (token : Token) (passed : List Token) (next : Token)
    (rest : List Token) : Nat.repeat step (passed.length + 1) ⟨before, token, passed ++ next :: rest⟩ =
      ⟨passed.reverse ++ token :: before, next, rest⟩ := by
  induction passed generalizing before token with
  | nil => rfl
  | cons second passed ih =>
    rw [List.length_cons, repeat_step_succ]
    refine (ih (token :: before) second).trans ?_
    rw [List.reverse_cons, List.append_assoc]
    rfl

/-! ## Lambdas -/

namespace CursorM

variable {before tokens following : List Token}

theorem body_onto {brace close : Token} (hbrace : brace.kind = .opening .curly)
    (hbalanced : Token.Balanced .curly tokens) (hclose : close.kind = .closing .curly) (hne : following ≠ []) :
    body (onto before (brace :: (tokens ++ close :: following))) =
      .ok (tokens ++ [Token.eof]) (onto ((brace :: (tokens ++ [close])).reverse ++ before) following) := by
  have hnewline : close.kind ≠ .newline := by simp [hclose]
  rw [onto_cons (by simp [hbrace]), body, bind_get]
  dsimp only
  rw [if_pos hbrace, Token.curlyBody?_balanced hbalanced hclose]
  change EStateM.Result.ok _ (Nat.repeat step (tokens.length + 1) _).advance = _
  rw [Cursor.repeat_step_append, ← onto_cons hnewline, advance_onto hnewline (by simp [hclose]) hne]
  simp

/-- The head of a lambda is read up to the brace behind it. -/
theorem lambdaHead_onto {head : List Token} {parameters : List Parameter} {names : List String} {brace : Token}
    (h : HeadsLambda head parameters names) (hbrace : brace.kind = .opening .curly) (before rest : List Token) :
    lambdaHead (onto before (head ++ brace :: rest)) =
      .ok (parameters, .ofNames names) (onto (head.reverse ++ before) (brace :: rest)) := by
  have hbehind : Token.plain (brace :: rest) = brace :: Token.plain rest := Token.plain_cons (by simp [hbrace]) rest
  have hcoming : Token.plain (head ++ brace :: rest) = head ++ brace :: Token.plain rest := by
    rw [Token.plain_append, h.plain, hbehind]
  have hstart : (onto before (head ++ brace :: rest)).Fronts (head ++ brace :: Token.plain rest) :=
    hcoming ▸ fronts_onto (by simp [hcoming])
  have hplace : (onto (head.reverse ++ before) (brace :: rest)).Fronts (brace :: Token.plain rest) :=
    hbehind ▸ fronts_onto (by simp [hbehind])
  obtain ⟨later, hrun, hlater⟩ := gives_lambdaHead h (by simp [hbrace]) hstart
  have htokens : later.tokens = (onto (head.reverse ++ before) (brace :: rest)).tokens := by
    rw [(advances_lambdaHead.ok hrun).tokens, tokens_onto _ (by simp), tokens_onto _ (by simp)]
    simp
  rw [hrun, hplace.eq hlater htokens]

/-- A lambda is read up to what stands behind its closing brace. -/
theorem lambda_onto (h : LambdaTokens tokens) (hne : following ≠ []) (before : List Token) :
    ∃ function, lambda (onto before (tokens ++ following)) =
      .ok function (onto (tokens.reverse ++ before) following) := by
  obtain ⟨hhead, hbrace, hbalanced, -, -, hclose⟩ := h
  rename_i head body brace close parameters names
  have hshape : head ++ brace :: (body ++ [close]) ++ following = head ++ brace :: (body ++ close :: following) := by
    simp
  rw [hshape, lambda_eq, bind_of_ok (lambdaHead_onto hhead hbrace before _)]
  dsimp only
  rw [bind_get, bind_of_ok (body_onto hbrace hbalanced hclose hne)]
  simp [pure, EStateM.pure]

end CursorM

/-! ## Groups -/

open CursorM (skipGroupRest currentKind_onto)

section Groups

variable {start token : Token} {steps depth : Nat} {before rest : List Token}

theorem skipGroupRest_opening (h : token.kind = .opening .round) (hne : rest ≠ []) :
    skipGroupRest start (steps + 1) depth (onto before (token :: rest)) =
      skipGroupRest start steps (depth + 1) (onto (token :: before) rest) := by
  have hnewline : token.kind ≠ .newline := by simp [h]
  rw [skipGroupRest_succ, bind_of_ok (currentKind_onto hnewline), if_neg (by simp [h]), if_pos h,
    bind_of_ok (CursorM.advance_run_onto hnewline (by simp [h]) hne)]

theorem skipGroupRest_closing (h : token.kind = .closing .round) (hne : rest ≠ []) :
    skipGroupRest start (steps + 1) (depth + 1) (onto before (token :: rest)) =
      skipGroupRest start steps depth (onto (token :: before) rest) := by
  have hnewline : token.kind ≠ .newline := by simp [h]
  rw [skipGroupRest_succ, bind_of_ok (currentKind_onto hnewline), if_neg (by simp [h]), if_neg (by simp [h]), if_pos h]
  exact bind_of_ok (CursorM.advance_run_onto hnewline (by simp [h]) hne)

/-- Tokens that close no parenthesis around them are passed over, and line breaks with them. -/
theorem skipGroupRest_scan {depth depth' : Nat} {tokens following : List Token}
    (heof : ∀ token ∈ tokens, token.kind ≠ .eof) (h : Token.depthBehind? .round depth tokens = some depth')
    (hne : following ≠ []) (start : Token) (steps around : Nat) (before : List Token)
    (hsteps : (tokens ++ following).length ≤ steps) :
    ∃ left, following.length ≤ left ∧
      skipGroupRest start steps (around + depth) (onto before (tokens ++ following)) =
        skipGroupRest start left (around + depth') (onto (tokens.reverse ++ before) following) := by
  induction tokens generalizing depth steps before with
  | nil =>
    cases h
    exact ⟨steps, hsteps, rfl⟩
  | cons token tokens ih =>
    obtain ⟨steps, rfl⟩ : ∃ left, steps = left + 1 := ⟨steps - 1, by simp at hsteps; omega⟩
    have hrest : tokens ++ following ≠ [] := List.append_ne_nil_of_right_ne_nil _ hne
    have heof' : ∀ token ∈ tokens, token.kind ≠ .eof := fun token htoken => heof token (List.mem_cons_of_mem _ htoken)
    have hreverse : (token :: tokens).reverse ++ before = tokens.reverse ++ token :: before := by simp
    rw [Token.depthBehind?_cons] at h
    rw [hreverse, List.cons_append]
    split at h
    · rename_i hopening
      rw [skipGroupRest_opening hopening hrest]
      exact ih heof' h steps (token :: before) (by simp at hsteps ⊢; omega)
    · rename_i hopening
      split at h
      · rename_i hclosing
        cases depth with
        | zero => cases h
        | succ depth =>
          rw [← Nat.add_assoc, skipGroupRest_closing hclosing hrest]
          exact ih heof' h steps (token :: before) (by simp at hsteps ⊢; omega)
      · rename_i hclosing
        by_cases hnewline : token.kind = .newline
        · rw [onto_newline hnewline hrest]
          exact ih heof' h (steps + 1) (token :: before) (by simp at hsteps ⊢; omega)
        · obtain ⟨middle, hmiddle, hpass⟩ := passes_singleton ⟨hnewline, heof token (by simp)⟩ ⟨hopening, hclosing⟩
            start (steps + 1) (around + depth) before (tokens ++ following) hrest hsteps
          obtain ⟨left, hleft, hrun⟩ := ih heof' h middle (token :: before) hmiddle
          exact ⟨left, hleft, hpass.trans hrun⟩

end Groups

theorem passes_balanced {tokens : List Token} (h : Token.Balanced .round tokens)
    (heof : ∀ token ∈ tokens, token.kind ≠ .eof) : Passes tokens :=
  fun start steps depth before _ hne hsteps => skipGroupRest_scan heof h hne start steps depth before hsteps

/-- Tokens that are no parentheses are passed over one by one. -/
theorem passes_plain {tokens : List Token} (h : ∀ token ∈ tokens, passable token.kind = true) : Passes tokens := by
  induction tokens with
  | nil => exact passes_nil
  | cons token tokens ih =>
    have htoken : Passes [token] := passes_face rfl (h token (by simp))
    exact htoken.append (ih fun token htoken => h token (List.mem_cons_of_mem _ htoken))

theorem passes_one (token : Token) (h : passable token.kind = true) : Passes [token] :=
  passes_plain (by simpa using h)

theorem passable_of_isListed {kind : TokenKind} (h : kind.isListed = true) : passable kind = true := by
  cases kind with
  | name | colon | comma => rfl
  | _ => cases h

theorem passes_listed {tokens : List Token} (h : ∀ token ∈ tokens, token.kind.isListed = true) : Passes tokens :=
  passes_plain fun token htoken => passable_of_isListed (h token htoken)

theorem passes_returns {tokens : List Token} {names : List String} (h : NamesReturns tokens names) : Passes tokens := by
  cases h with
  | absent => exact passes_nil
  | one harrow htype => exact passes_plain (by simp [harrow, htype, passable])
  | several harrow hopening htypes hclosing =>
    exact (passes_one _ (by rw [harrow]; rfl)).append ((passes_listed htypes.isListed).group hopening hclosing)

theorem passes_head {head : List Token} {parameters : List Parameter} {names : List String}
    (h : HeadsLambda head parameters names) : Passes head := by
  obtain ⟨hkeyword, hopening, hlisted, hclosing, hreturned⟩ := h
  have hword := passes_one _ (by rw [kind_of_isKeywordOf hkeyword]; rfl)
  have hgroup := (passes_listed hlisted.isListed).group hopening hclosing
  have hall := hword.append (hgroup.append (passes_returns hreturned))
  simpa using hall

theorem passes_lambda {tokens : List Token} (h : LambdaTokens tokens) : Passes tokens := by
  obtain ⟨hhead, hbrace, -, hbalanced, heof, hclose⟩ := h
  have hbody := (passes_balanced hbalanced heof).append (passes_one _ (by rw [hclose]; rfl))
  exact (passes_head hhead).append ((passes_one _ (by rw [hbrace]; rfl)).append hbody)

theorem passable_of_isObject {kind : TokenKind} (h : kind.isObject = true) : passable kind = true := by
  cases kind with
  | name | int | float | string | char | bool => rfl
  | _ => cases h

theorem Laid.passes {shape : Shape} {tokens : List Token} (h : Laid shape tokens) : Passes tokens := by
  induction h with
  | literal hkind => exact passes_one _ (passable_of_isObject (isObject_of_literal hkind))
  | name hkind => exact passes_one _ (passable_of_isObject (isObject_of_name hkind))
  | this hkeyword => exact passes_one _ (by rw [kind_of_isKeywordOf hkeyword]; rfl)
  | group hopening hclosing _ ih => exact ih.group hopening hclosing
  | @call name _ _ _ hname hopening hclosing _ ih =>
    exact (passes_one name (by rw [hname]; rfl)).append (ih.group hopening hclosing)
  | lambda hlambda => exact passes_lambda hlambda
  | alone _ ih => exact ih
  | @binary _ _ operator _ hoperator _ ih ih' =>
    exact ih.append ((passes_one operator (by rw [kind_of_binary hoperator]; rfl)).append ih')
  | @unary sign _ hsign _ ih => exact (passes_one sign (by rw [kind_of_unary hsign]; rfl)).append ih
  | @ternary keyword opening closing alternative _ _ _ hkeyword hopening _ hclosing _ halternative _ ihc ihp ihn =>
    have hbranches := ihp.append
      ((passes_one alternative (by rw [kind_of_isKeywordOf halternative]; rfl)).append ihn)
    have hword := passes_one keyword (by rw [kind_of_isKeywordOf hkeyword]; rfl)
    have hall := hword.append ((ihc.group hopening hclosing).append hbranches)
    simpa using hall
  | @assignment target sign _ htarget hsign _ ih =>
    exact (passes_one target (by rw [htarget]; rfl)).append ((passes_one sign (by rw [hsign]; rfl)).append ih)
  | none => exact passes_nil
  | last _ ih => exact ih
  | @more _ _ comma _ hcomma _ _ ih ih' => exact ih.append ((passes_one comma (by rw [hcomma]; rfl)).append ih')

/-- Arguments do not begin with a line break. -/
theorem Laid.head_ne_newline {tokens : List Token} (h : Laid .arguments tokens) {token : Token}
    (hhead : tokens.head? = some token) : token.kind ≠ .newline := by
  cases h with
  | none => cases hhead
  | last h => exact (h.started (by decide)).head_ne_newline hhead
  | more h => exact ((h.started (by decide)).append _).head_ne_newline hhead

/-! ## Expressions -/

open CursorM (skipRest)

theorem isKeywordOf_of_ne {token : Token} {word other : String} (h : token.isKeywordOf word = true)
    (hne : word ≠ other) : token.isKeywordOf other = false := by
  rw [Token.isKeywordOf, Bool.and_eq_true, decide_eq_true_iff, decide_eq_true_iff] at h
  rw [Token.isKeywordOf, h.2, decide_eq_false hne, Bool.and_false]

theorem skips_this {token : Token} {following : List Token} (h : token.isKeywordOf "this" = true)
    (hne : following ≠ []) : Skips [token] following := by
  intro steps first waiting before hentering hsteps
  have hkind := kind_of_isKeywordOf h
  obtain ⟨left, rfl⟩ : ∃ left, steps = left + 1 := ⟨steps - 1, by simp at hsteps; omega⟩
  refine ⟨left, by simp at hsteps; omega, ?_⟩
  have hobject : token.kind.isObject = false := by
    rw [hkind]
    rfl
  rw [List.singleton_append, skipRest_token (boundary_entering (by rw [hkind]; rfl) hentering)
    (by rw [hobject]; nofun) ⟨isKeywordOf_of_ne h (by decide), isKeywordOf_of_ne h (by decide)⟩ (by simp [hkind]) hne,
    hkind, track_of_not_bracket rfl]
  rfl

theorem skips_lambda {tokens following : List Token} (h : LambdaTokens tokens) (hne : following ≠ []) :
    Skips tokens following := by
  intro steps first waiting before hentering hsteps
  obtain ⟨function, hrun⟩ := CursorM.lambda_onto h hne before
  obtain ⟨keyword, rest, rfl, hkeyword⟩ := h.exists_keyword
  obtain ⟨left, rfl⟩ : ∃ left, steps = left + 1 := ⟨steps - 1, by simp at hsteps; omega⟩
  refine ⟨left, by simp at hsteps; omega, ?_⟩
  have hkind := kind_of_isKeywordOf hkeyword
  have hinside : (onto before (keyword :: (rest ++ following))).boundary first waiting.isEmpty = .inside :=
    boundary_entering (by rw [hkind]; rfl) hentering
  have hcurrent : (onto before (keyword :: (rest ++ following))).current = keyword := current_onto (by simp [hkind])
  rw [List.cons_append] at hrun ⊢
  rw [skipRest, bind_get, hinside]
  dsimp only
  rw [hcurrent, hkind, isKeywordOf_of_ne hkeyword (by decide), hkeyword]
  exact bind_of_ok hrun

/-- What may stand behind tokens of a shape. -/
def Behind : Shape → List Token → Prop
  | .operand, following => Clear following
  | .expression, following => Stops following
  | .arguments, _ => False

theorem Laid.skips {shape : Shape} {tokens following : List Token} (h : Laid shape tokens)
    (hbehind : Behind shape following) : Skips tokens following := by
  induction h generalizing following with
  | literal hkind => exact skips_object (isObject_of_literal hkind) hbehind.ne_nil hbehind.raw
  | name hkind => exact skips_object (isObject_of_name hkind) hbehind.ne_nil hbehind.raw
  | this hkeyword => exact skips_this hkeyword hbehind.ne_nil
  | group hopening hclosing _ ih =>
    exact skips_paren hopening hclosing (ih (.mark (by rw [hclosing]; rfl) (by simp [hclosing]))) hbehind.ne_nil
  | call hname hopening hclosing harguments _ =>
    exact skips_call hname hopening hclosing harguments.passes (fun _ => harguments.head_ne_newline) hbehind.ne_nil
  | lambda hlambda => exact skips_lambda hlambda hbehind.ne_nil
  | alone _ ih => exact ih (Stops.clear hbehind)
  | binary _ hoperator _ ih ih' =>
    have hkind := kind_of_binary hoperator
    exact skips_joined (.inl hkind) (startsOperand_of_binary hoperator) (ih (clear_cons (by simp [hkind])))
      (ih' hbehind) (Stops.clear hbehind).ne_nil
  | unary hsign _ ih => exact skips_unary (kind_of_unary hsign) (ih hbehind) (Stops.clear hbehind).ne_nil
  | ternary hkeyword hopening hconditions hclosing hpositives halternative hnegatives _ ihp ihn =>
    exact skips_ternary hkeyword hopening hclosing halternative hconditions.passes (hconditions.started (by decide))
      hbehind (ihp (.alternative halternative)) ⟨hpositives.ended (by decide), hpositives.started (by decide)⟩
      (ihn hbehind) ⟨hnegatives.ended (by decide), hnegatives.started (by decide)⟩
  | @assignment target sign tokens htarget hsign _ ih =>
    have hstarts : startsOperand sign = false := by
      rw [startsOperand, Token.isKeyword, Token.isUnaryOperator, Token.isOperator, hsign]
      rfl
    have htarget' : Skips [target] (sign :: (tokens ++ following)) := by
      refine skips_object (isObject_of_name htarget) (List.cons_ne_nil _ _) fun next hnext => ?_
      cases hnext
      simp [hsign]
    exact skips_joined (.inr hsign) hstarts htarget' (ih hbehind) (Stops.clear hbehind).ne_nil
  | none => exact absurd hbehind id
  | last => exact absurd hbehind id
  | more => exact absurd hbehind id

theorem Laid.skipExpression {tokens following : List Token} (h : Laid .expression tokens) (hstops : Stops following)
    (before : List Token) :
    CursorM.skipExpression (onto before (tokens ++ following)) =
      .ok () (onto (tokens.reverse ++ before) following) :=
  skipExpression_of_skips (h.skips hstops) (h.ended (by decide)) (h.started (by decide)) hstops before

end GradualScript
