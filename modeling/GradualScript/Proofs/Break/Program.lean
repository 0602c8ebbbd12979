import GradualScript.Proofs.Break.Expression
import GradualScript.Proofs.Tandem.Program
import GradualScript.Proofs.Walk.Comparison

/-!
# Line breaks inside parentheses

Directly inside of parentheses a line break ends nothing, so one more of them makes no difference to a program that has
a value.

* `mirror_declaration`, `mirror_statement`, `mirror_statements` : statements with further line breaks;
* `Place` : a place between two lexemes of a text, with the tokens before and behind it;
* `Place.slack` : the tokens without and with a line break there;
* `evaluate_withBreak` : the program has the same value with it.
-/

set_option autoImplicit false

namespace GradualScript

open Cursor (Slack)

namespace WalkM

variable {cursor other : Cursor} {context : Context} {executor : Executor}

/-! ## Statements -/

theorem mirror_declaredTypes (h : cursor.Slack other) :
    Mirror Eq (declaredTypes ⟨cursor, context⟩) (declaredTypes ⟨other, context⟩) := by
  rw [declaredTypes]
  refine mirror_currentKind h fun kind _ => ?_
  refine Mirrors.ite (fun _ => ?_) fun _ => mirror_pure rfl h
  refine (mirror_reading (CursorM.mirror_advance h)).bind fun _ _ cursor other context _ h => ?_
  refine (mirror_reading (CursorM.mirror_expect _ h)).bind fun token token' cursor other context htoken h => ?_
  rw [Token.text_of_content htoken]
  exact mirror_pure rfl h

theorem mirror_declare (binding : Binding) (line line' : Nat) (h : cursor.Slack other) :
    Mirror Eq (ofContext (ContextM.declare binding line) ⟨cursor, context⟩)
      (ofContext (ContextM.declare binding line') ⟨other, context⟩) := by
  unfold ofContext ContextM.declare
  dsimp only
  cases context.scopes.declare binding with
  | ok scopes => exact .ok rfl ⟨h, rfl⟩
  | error kind => exact .error

theorem mirror_declaration (h : cursor.Slack other) :
    Mirror Eq (declaration executor ⟨cursor, context⟩) (declaration executor ⟨other, context⟩) := by
  rw [declaration]
  refine (mirror_reading (CursorM.mirror_advance h)).bind fun word word' cursor other context hword h => ?_
  rw [Token.isKeywordOf_of_content hword]
  refine mirror_currentLine fun line line' => ?_
  refine (mirror_reading (CursorM.mirror_expect _ h)).bind fun token token' cursor other context htoken h => ?_
  rw [Token.text_of_content htoken]
  refine (mirror_declaredTypes h).bind fun types _ cursor other context htypes h => ?_
  subst htypes
  refine (mirror_reading (CursorM.mirror_expect _ h)).bind fun _ _ cursor other context _ h => ?_
  refine (mirror_evaluation h).bind fun item _ cursor other context hitem h => ?_
  subst hitem
  refine Mirrors.ite (fun _ => ?_) fun _ => .error
  exact (mirror_declare _ _ _ h).bind fun _ _ cursor other context _ h => mirror_pure rfl h

theorem mirror_returnStatement (h : cursor.Slack other) :
    Mirror Eq (returnStatement executor ⟨cursor, context⟩) (returnStatement executor ⟨other, context⟩) := by
  rw [returnStatement]
  refine (mirror_reading (CursorM.mirror_advance h)).bind fun _ _ cursor other context _ h => ?_
  refine mirror_currentKind h fun kind _ => ?_
  refine Mirrors.ite (fun _ => mirror_pure rfl h) fun _ => ?_
  refine (mirror_evaluation h).bind fun item _ cursor other context hitem h => ?_
  exact mirror_pure (congrArg Outcome.returned hitem) h

/-- A scope of its own is dropped again. -/
theorem mirror_inScope {α : Type} {body body' : WalkM α}
    (h : ∀ context, Mirror Eq (body ⟨cursor, context⟩) (body' ⟨other, context⟩)) :
    Mirror Eq (inScope body ⟨cursor, context⟩) (inScope body' ⟨other, context⟩) := by
  unfold inScope
  dsimp only
  cases hbody : body ⟨cursor, { context with scopes := context.scopes.push }⟩ with
  | ok a after =>
    obtain ⟨_, after', hbody', rfl, hslack⟩ := h _ a after hbody
    rw [hbody']
    obtain ⟨cursor', context'⟩ := after
    obtain ⟨other', _⟩ := after'
    obtain ⟨hslack, rfl⟩ := hslack
    exact (mirror_acting _ hslack).bind fun _ _ _ _ _ _ h => mirror_pure rfl h
  | error failure after =>
    intro a walk hrun
    obtain ⟨_, _, _, hthrow⟩ := bind_eq_ok.1 hrun
    cases hthrow

theorem mirror_nestedBlock {statements statements' : WalkM Outcome}
    (hstatements : ∀ cursor other context, cursor.Slack other →
      Mirror Eq (statements ⟨cursor, context⟩) (statements' ⟨other, context⟩)) (h : cursor.Slack other) :
    Mirror Eq (nestedBlock statements ⟨cursor, context⟩) (nestedBlock statements' ⟨other, context⟩) := by
  rw [nestedBlock, nestedBlock]
  refine (mirror_reading (CursorM.mirror_advance h)).bind fun _ _ cursor other context _ h => ?_
  refine (mirror_inScope fun context => hstatements _ _ _ h).bind fun outcome _ cursor other context houtcome h => ?_
  subst houtcome
  cases outcome with
  | completed item =>
    refine (mirror_reading (CursorM.mirror_expect _ h)).bind fun _ _ cursor other context _ h => ?_
    exact mirror_pure rfl h
  | returned item => exact mirror_pure rfl h

theorem mirror_statement {nested nested' : WalkM Outcome}
    (hnested : ∀ cursor other context, cursor.Slack other →
      Mirror Eq (nested ⟨cursor, context⟩) (nested' ⟨other, context⟩)) (h : cursor.Slack other) :
    Mirror Eq (statement executor nested ⟨cursor, context⟩) (statement executor nested' ⟨other, context⟩) := by
  rw [statement, statement]
  refine mirror_current ?_
  rw [h.isKeywordOf, h.isKeywordOf, h.isKeywordOf, h.kind]
  refine .ite (fun _ => mirror_declaration h) fun _ => ?_
  refine .ite (fun _ => mirror_returnStatement h) fun _ => ?_
  refine .ite (fun _ => mirror_nestedBlock hnested h) fun _ => ?_
  refine (mirror_evaluation h).bind fun item _ cursor other context hitem h => ?_
  exact mirror_pure (congrArg Outcome.completed hitem) h

/-- What ended a statement ends it also behind a further line break. -/
theorem mirror_statementEnd (h : cursor.Slack other) :
    Mirror Eq (statementEnd ⟨cursor, context⟩) (statementEnd ⟨other, context⟩) := by
  rw [statementEnd, bind_get, bind_get]
  dsimp only
  rw [h.kind]
  split
  · rename_i hends
    rw [if_pos ?_]
    · exact mirror_pure rfl h
    · rw [Bool.or_eq_true] at hends ⊢
      exact hends.imp_right h.followsBreak
  · exact .error

theorem mirror_statementsFrom {steps steps' : Nat} (hle : steps ≤ steps') (stop : TokenKind) (last : Item)
    (h : cursor.Slack other) :
    Mirror Eq (statementsFrom executor steps stop last ⟨cursor, context⟩)
      (statementsFrom executor steps' stop last ⟨other, context⟩) := by
  induction steps generalizing steps' stop last cursor other context with
  | zero => exact .error
  | succ steps ih =>
    obtain ⟨steps', rfl⟩ : ∃ n, steps' = n + 1 := ⟨steps' - 1, by omega⟩
    have hle : steps ≤ steps' := by omega
    rw [statementsFrom, statementsFrom]
    refine (mirror_reading (CursorM.mirror_skipStatementBreaks h)).bind fun _ _ cursor other context _ h => ?_
    refine mirror_currentKind h fun kind _ => ?_
    refine .ite (fun _ => mirror_pure rfl h) fun _ => .ite (fun _ => .error) fun _ => ?_
    refine (mirror_statement (fun _ _ _ h => ih hle _ _ h) h).bind fun outcome _ cursor other context houtcome h => ?_
    subst houtcome
    cases outcome with
    | returned item => exact mirror_pure rfl h
    | completed item =>
      exact (mirror_statementEnd h).bind fun _ _ cursor other context _ h => ih hle stop item h

theorem mirror_statements (h : cursor.Slack other) :
    Mirror Eq (statements executor ⟨cursor, context⟩) (statements executor ⟨other, context⟩) := by
  rw [statements, bounded, bind_get, bind_get]
  exact mirror_statementsFrom (Nat.succ_le_succ h.length_le) _ _ h

end WalkM

/-! ## Programs -/

theorem Mirrors.refl {ε σ α : Type} (result : EStateM.Result ε σ α) : Mirrors Eq Eq result result := by
  intro a s hrun
  exact ⟨a, s, hrun, rfl, rfl⟩

namespace ContextM

variable {α : Type} {context : Context}

theorem mirrors_inScope {body body' : ContextM α} (h : ∀ context, Mirrors Eq Eq (body context) (body' context)) :
    Mirrors Eq Eq (inScope body context) (inScope body' context) := by
  unfold inScope
  cases hbody : body { context with scopes := context.scopes.push } with
  | ok a after =>
    obtain ⟨_, _, hbody', rfl, rfl⟩ := h _ a after hbody
    rw [hbody']
    exact .refl _
  | error failure after =>
    intro a after hrun
    obtain ⟨_, _, _, hthrow⟩ := bind_eq_ok.1 hrun
    cases hthrow

theorem mirrors_walk {cursor other : Cursor} {body : WalkM α}
    (h : WalkM.Mirror Eq (body ⟨cursor, context⟩) (body ⟨other, context⟩)) :
    Mirrors Eq Eq (walk cursor body context) (walk other body context) := by
  unfold walk
  cases hbody : body ⟨cursor, context⟩ with
  | ok a after =>
    obtain ⟨_, after', hbody', rfl, hslack⟩ := h a after hbody
    rw [hbody']
    exact .ok rfl hslack.context.symm
  | error failure after => exact .error

end ContextM

theorem Executor.mirrors_block {tokens tokens' : List Token} {cursor other : Cursor}
    (hcursor : Cursor.ofTokens? tokens = some cursor) (hother : Cursor.ofTokens? tokens' = some other)
    (h : cursor.Slack other) (levels : Nat) (bindings : List Binding) (context : Context) :
    Mirrors Eq Eq (Executor.block levels tokens bindings context) (Executor.block levels tokens' bindings context) := by
  cases levels with
  | zero => exact .error
  | succ levels =>
    rw [Executor.block, Executor.block]
    refine ContextM.mirrors_inScope fun context => Mirrors.bind (.refl _) fun _ _ context _ _ hcontext => ?_
    subst hcontext
    rw [hcursor, hother]
    exact ContextM.mirrors_walk (WalkM.mirror_statements h)

/-! ## Places in a text -/

/-- A place in a text, between two of its lexemes. -/
structure Place (text : String) where
  /-- The lexemes before the place. -/
  earlier : List Lexeme
  /-- The lexemes behind the place. -/
  later : List Lexeme
  split : Lexeme.split text.toList = (earlier ++ later, [])

namespace Place

variable {text : String} (place : Place text)

/-- What has been read up to the place. -/
def lexing : Lexing :=
  place.earlier.foldl (Lexing.read "shell") .start

/-- The tokens before the place. -/
def front : List Token :=
  place.lexing.tokens.reverse

/-- All tokens of the text. -/
def tokens : List Token :=
  (place.later.foldl (Lexing.read "shell") place.lexing).finish "shell"

/-- The tokens behind the place, with the end of input. -/
def back : List Token :=
  place.tokens.drop place.front.length

/-- The innermost bracket that is open at the place. -/
def innermost? : Option Bracket :=
  ((place.front.map Token.kind).foldl Lexing.track []).head?

/-- A name or literal is right before the place, and a parenthesis right behind it. -/
def cutsCall : Bool :=
  place.front.getLast?.any (·.kind.isObject) && place.back.head?.any (·.kind = .opening .round)

/-- The text with a line break at the place. -/
def withBreak : String :=
  String.ofList (place.earlier.flatMap Lexeme.chars ++ '\n' :: place.later.flatMap Lexeme.chars)

theorem tokenize_eq : (Source.ofText text).tokenize = .ok place.tokens := by
  rw [Source.tokenize, Source.ofText]
  dsimp only
  rw [place.split]
  dsimp only
  rw [List.foldl_append]
  rfl

theorem opened_eq : place.lexing.opened.head? = place.innermost? := by
  rw [lexing, Lexing.opened_foldl "shell" .start place.earlier rfl]
  rfl

/-- The token of a line break at the place. -/
def lineBreak : Token :=
  ⟨.newline, "\n", .ofBytes place.lexing.offset 1 "shell"⟩

/-- The tokens without and with the line break. It stands behind those before the place, and all behind it are further
on. -/
theorem tokenize_withBreak (h : place.innermost? = some .round) :
    place.tokens = place.front ++ place.back ∧
      (Source.ofText place.withBreak).tokenize =
        .ok (place.front ++ place.lineBreak :: place.back.map (Token.shift 1)) := by
  have hbroken : Lexing.Broken 1 place.lexing.tokens place.lineBreak place.lexing.tokens place.lexing
      (place.lexing.read "shell" Lexeme.lineBreak) := by
    rw [Lexing.read_lineBreak]
    exact ⟨rfl, rfl, [], rfl, rfl, .inl rfl, .inr fun _ => place.opened_eq.trans h⟩
  obtain ⟨back, htokens, htokens'⟩ := (hbroken.foldl "shell" rfl place.later).finish "shell"
  change place.tokens = place.front ++ back at htokens
  have hback : place.back = back := by
    rw [Place.back, htokens, List.drop_left]
  have hlater : Lexeme.split (place.later.flatMap Lexeme.chars) = (place.later, []) := by
    have hsplit := Lexeme.split_behind place.split
    rw [List.append_nil] at hsplit
    exact hsplit
  refine ⟨by rw [hback]; exact htokens, ?_⟩
  rw [Source.tokenize, Source.ofText, withBreak]
  dsimp only
  rw [String.toList_ofList, Lexeme.split_break place.split, hlater, hback]
  dsimp only
  rw [List.foldl_append, List.foldl_cons]
  exact congrArg Except.ok htokens'

end Place

/-! ## The tokens of both texts -/

theorem Token.spread_shift (n : Nat) (previous : Token) (tokens : List Token) :
    Spread previous tokens (tokens.map (shift n)) := by
  induction tokens generalizing previous with
  | nil => exact .nil
  | cons token tokens ih => exact .cons rfl (ih token)

/-- A line break between two parts of the tokens, unless that cuts a call in two. -/
theorem Token.spread_append {lineBreak : Token} (hbreak : lineBreak.kind = .newline) (n : Nat) {back : List Token}
    (hback : back ≠ []) (previous : Token) (front : List Token)
    (hcall : ((previous :: front).getLast?.any (·.kind.isObject) &&
      back.head?.any (·.kind = .opening .round)) = false) :
    Spread previous (front ++ back) (front ++ lineBreak :: back.map (shift n)) := by
  induction front generalizing previous with
  | nil =>
    cases back with
    | nil => exact absurd rfl hback
    | cons token back =>
      refine .lineBreak hbreak (fun hobject hopening => ?_) (spread_shift n previous (token :: back))
      simp [hobject, hopening] at hcall
  | cons token front ih =>
    refine .cons rfl (ih token ?_)
    rw [List.getLast?_cons_cons] at hcall
    exact hcall

/-- Both texts are read from cursors on the same token. -/
theorem Place.slack {text : String} (place : Place text) (hround : place.innermost? = some .round)
    (hcall : place.cutsCall = false) (hplain : ∀ token ∈ place.tokens, token.isKeywordOf "lambda" = false) :
    ∃ tokens' cursor other, (Source.ofText place.withBreak).tokenize = .ok tokens' ∧
      Cursor.ofTokens? place.tokens = some cursor ∧ Cursor.ofTokens? tokens' = some other ∧ cursor.Slack other := by
  obtain ⟨htokens, hbroken⟩ := place.tokenize_withBreak hround
  have hend := terminated_of_tokenize place.tokenize_eq
  have hend' := terminated_of_tokenize hbroken
  have hback : place.back ≠ [] := by
    intro hnil
    rw [hnil] at hend'
    simp [Token.Terminated, Place.lineBreak] at hend'
  unfold cutsCall at hcall
  rw [htokens] at hend hplain
  rw [htokens]
  cases hfront : place.front with
  | nil =>
    rw [innermost?, hfront] at hround
    cases hround
  | cons token front =>
    rw [hfront] at hend hend' hcall hplain hbroken
    have hcursor := Cursor.ofTokens?_of_terminated hend
    have hother := Cursor.ofTokens?_of_terminated hend'
    exact ⟨_, _, _, hbroken, hcursor, hother, rfl, .nil, Token.spread_append rfl 1 hback token front hcall,
      Cursor.terminated_of_ofTokens? hcursor, Cursor.terminated_of_ofTokens? hother, hplain⟩

/-- A line break directly inside of parentheses makes no difference to a program that has a value, if no function is
written in it and the break does not cut the parenthesis of a call off. -/
theorem evaluate_withBreak {text : String} (place : Place text) {context final : Context} {value : Item}
    (hround : place.innermost? = some .round) (hcall : place.cutsCall = false)
    (hplain : ∀ token ∈ place.tokens, token.isKeywordOf "lambda" = false)
    (h : evaluate text context = .ok value final) : evaluate place.withBreak context = .ok value final := by
  obtain ⟨tokens', cursor, other, htokens', hcursor, hother, hslack⟩ := place.slack hround hcall hplain
  rw [evaluate, bind_get, evaluateWith] at h ⊢
  rw [place.tokenize_eq] at h
  rw [htokens']
  obtain ⟨outcome, after, hrun, hreturn⟩ := bind_eq_ok.1 h
  obtain ⟨_, _, hrun', rfl, rfl⟩ := Executor.mirrors_block hcursor hother hslack _ [] context outcome after hrun
  exact (bind_of_ok hrun').trans hreturn

/-- The place behind the first `n` lexemes of a text that is split to its end. -/
def Place.behind (text : String) (n : Nat) (h : (Lexeme.split text.toList).2 = []) : Place text where
  earlier := (Lexeme.split text.toList).1.take n
  later := (Lexeme.split text.toList).1.drop n
  split := by rw [List.take_append_drop, ← h]

/-- The place before the sign, inside the parentheses. -/
def Place.beforeSign : Place "if (2 -1>0) 4 else 5" :=
  .behind _ 4 (by decide +kernel)

/-- A sign behind the break stays binary. -/
theorem evaluate_withBreak_sign :
    evaluate "if (2 -1>0) 4 else 5" default = .ok (.int 4) default ∧
      evaluate "if (2\n -1>0) 4 else 5" default = .ok (.int 4) default := by
  have hrun : evaluate "if (2 -1>0) 4 else 5" default = .ok (.int 4) default :=
    Comparable.eq_of_same (by decide +kernel)
  have hplain : ∀ token ∈ Place.beforeSign.tokens, token.isKeywordOf "lambda" = false := by decide +kernel
  have hbroken : Place.beforeSign.withBreak = "if (2\n -1>0) 4 else 5" := by decide +kernel
  refine ⟨hrun, ?_⟩
  rw [← hbroken]
  exact evaluate_withBreak Place.beforeSign (by decide +kernel) (by decide +kernel) hplain hrun

end GradualScript
