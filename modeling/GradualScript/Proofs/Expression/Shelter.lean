import GradualScript.Proofs.Expression.Skipping

/-!
# What is passed over

An expression that is skipped takes in semicolons: those of its groups and of its bodies, and one at its very start.

* `Cursor.Crosses` : every token from one cursor to another has a property, which may depend on the index;
* `Cursor.Spares` : every semicolon among these tokens stands at an index of a set;
* `Cursor.Spans` : the tokens from one cursor to another, as a list;
* `Cursor.Encloses` : two cursors on a pair of brackets (`encloses_skipGroup`, `encloses_lambda`);
* `Cursor.Covers` : the indices inside a group in parentheses or inside the body of a lambda, opened at a cursor or
  behind it;
* `Cursor.StartsBranch`, `Cursor.Shelters` : the places where a skipped expression can start, and these with the
  covered indices;
* `spares_skipGroup`, `spares_lambda`, `spares_skipExpression` : what is passed over is sheltered.
-/

set_option autoImplicit false

namespace GradualScript

namespace Cursor

variable {P Q : Nat → Token → Prop} {free : Nat → Prop} {origin cursor later : Cursor}

/-! ## Tokens with a property -/

/-- Every token from the cursor up to `later`, which is not among them, has the property. -/
structure Crosses (P : Nat → Token → Prop) (cursor later : Cursor) : Prop where
  ahead : cursor.Ahead later
  holds : ∀ index token, cursor.position ≤ index → index < later.position → cursor.tokens[index]? = some token →
    P index token

theorem crosses_refl (cursor : Cursor) : cursor.Crosses P cursor :=
  ⟨lasting_ahead.refl cursor, fun _ _ hle hlt => absurd hle (Nat.not_le_of_lt hlt)⟩

theorem Crosses.trans (h : origin.Crosses P cursor) (h' : cursor.Crosses P later) : origin.Crosses P later := by
  refine ⟨lasting_ahead.trans h.ahead h'.ahead, fun index token hle hlt htoken => ?_⟩
  by_cases hindex : index < cursor.position
  · exact h.holds index token hle hindex htoken
  · rw [← h.ahead.tokens] at htoken
    exact h'.holds index token (Nat.le_of_not_lt hindex) hlt htoken

theorem Crosses.mono (h : cursor.Crosses P later) (hle : ∀ index token, P index token → Q index token) :
    cursor.Crosses Q later :=
  ⟨h.ahead, fun index token hfrom hto htoken => hle index token (h.holds index token hfrom hto htoken)⟩

theorem crosses_step (h : P cursor.position cursor.current) : cursor.Crosses P cursor.step := by
  refine ⟨ahead_step cursor, fun index token hle hlt htoken => ?_⟩
  have hposition : cursor.step.position ≤ cursor.position + 1 := by
    unfold step
    split
    · exact Nat.le_succ _
    · exact Nat.le_refl _
  obtain rfl : index = cursor.position := by omega
  rw [getElem?_position] at htoken
  cases htoken
  exact h

theorem crosses_skipFrom (hbreak : ∀ index token, token.kind = .newline → P index token) (before : List Token)
    (current : Token) (rest : List Token) :
    Crosses P ⟨before, current, rest⟩ (skipFrom (· = .newline) before current rest) := by
  fun_induction skipFrom (· = .newline) before current rest with
  | case1 => exact crosses_refl _
  | case2 before current token rest hnewline ih =>
    have hstep : Crosses P ⟨before, current, token :: rest⟩ (step ⟨before, current, token :: rest⟩) :=
      crosses_step (hbreak _ _ (by simpa using hnewline))
    exact hstep.trans ih
  | case3 => exact crosses_refl _

theorem crosses_skipLineBreaks (hbreak : ∀ index token, token.kind = .newline → P index token) (cursor : Cursor) :
    cursor.Crosses P cursor.skipLineBreaks :=
  crosses_skipFrom hbreak cursor.before cursor.current cursor.rest

theorem crosses_advance (hbreak : ∀ index token, token.kind = .newline → P index token)
    (h : P cursor.position cursor.current) : cursor.Crosses P cursor.advance := by
  unfold advance
  split
  · exact crosses_refl cursor
  · exact (crosses_step h).trans (crosses_skipLineBreaks hbreak cursor.step)

/-! ## Semicolons -/

/-- Every semicolon from the cursor up to `later` stands at a free index. -/
abbrev Spares (free : Nat → Prop) (cursor later : Cursor) : Prop :=
  cursor.Crosses (fun index token => token.kind = .semicolon → free index) later

theorem Spares.skipLineBreaks (h : origin.Spares free cursor) : origin.Spares free cursor.skipLineBreaks :=
  h.trans (crosses_skipLineBreaks (fun _ _ hnewline hkind => by simp [hnewline] at hkind) cursor)

theorem Spares.advance (h : origin.Spares free cursor)
    (hcurrent : cursor.current.kind = .semicolon → free cursor.position) : origin.Spares free cursor.advance :=
  h.trans (crosses_advance (fun _ _ hnewline hkind => by simp [hnewline] at hkind) hcurrent)

theorem Spares.advance_of_ne (h : origin.Spares free cursor) (hkind : cursor.current.kind ≠ .semicolon) :
    origin.Spares free cursor.advance :=
  h.advance fun hsemicolon => absurd hsemicolon hkind

theorem Spares.expect (h : origin.Spares free cursor) {kind : TokenKind} {token : Token}
    (hrun : CursorM.expect kind cursor = .ok token later) (hkind : kind ≠ .semicolon) :
    origin.Spares free later := by
  obtain ⟨hcurrent, -, rfl⟩ := CursorM.expect_eq_ok.1 hrun
  exact h.advance_of_ne (by rw [hcurrent]; exact hkind)

theorem ne_semicolon_of_isKeywordOf {token : Token} {word : String} (h : token.isKeywordOf word = true) :
    token.kind ≠ .semicolon := by
  rw [kind_of_isKeywordOf h]
  exact TokenKind.noConfusion

theorem Spares.expectKeyword (h : origin.Spares free cursor) {word : String} {token : Token}
    (hrun : CursorM.expectKeyword word cursor = .ok token later) : origin.Spares free later := by
  obtain ⟨hcurrent, -, rfl⟩ := CursorM.expectKeyword_eq_ok.1 hrun
  exact h.advance_of_ne (ne_semicolon_of_isKeywordOf hcurrent)

/-! ## Pairs of brackets -/

/-- The tokens from the cursor up to `later`, which is not among them. -/
structure Spans (cursor : Cursor) (passed : List Token) (later : Cursor) : Prop where
  ahead : cursor.Ahead later
  before : later.before = passed.reverse ++ cursor.before

theorem Spans.trans {passed passed' : List Token} {next : Cursor} (h : cursor.Spans passed next)
    (h' : next.Spans passed' later) : cursor.Spans (passed ++ passed') later := by
  refine ⟨lasting_ahead.trans h.ahead h'.ahead, ?_⟩
  rw [h'.before, h.before, List.reverse_append, List.append_assoc]

theorem spans_skipFrom (before : List Token) (current : Token) (rest : List Token) :
    ∃ breaks, (∀ token ∈ breaks, token.kind = .newline) ∧
      Spans ⟨before, current, rest⟩ breaks (skipFrom (· = .newline) before current rest) := by
  fun_induction skipFrom (· = .newline) before current rest with
  | case1 => exact ⟨[], by simp, lasting_ahead.refl _, rfl⟩
  | case2 before current token rest hnewline ih =>
    obtain ⟨breaks, hbreaks, hspans⟩ := ih
    have hstep : Spans ⟨before, current, token :: rest⟩ [current] ⟨current :: before, token, rest⟩ :=
      ⟨ahead_step ⟨before, current, token :: rest⟩, rfl⟩
    exact ⟨current :: breaks, List.forall_mem_cons.2 ⟨by simpa using hnewline, hbreaks⟩, hstep.trans hspans⟩
  | case3 => exact ⟨[], by simp, lasting_ahead.refl _, rfl⟩

/-- Reading a token passes it and the line breaks behind it. -/
theorem spans_advance (hend : cursor.Terminated) (hkind : cursor.current.kind ≠ .eof) :
    ∃ breaks, (∀ token ∈ breaks, token.kind = .newline) ∧
      cursor.Spans (cursor.current :: breaks) cursor.advance := by
  obtain ⟨token, rest, hrest⟩ := hend.exists_rest hkind
  have hstep : cursor.step = ⟨cursor.current :: cursor.before, token, rest⟩ := by rw [step, hrest]
  obtain ⟨breaks, hbreaks, hspans⟩ := spans_skipFrom (cursor.current :: cursor.before) token rest
  refine ⟨breaks, hbreaks, ?_⟩
  rw [advance, if_neg hkind, hstep]
  have hone : cursor.Spans [cursor.current] ⟨cursor.current :: cursor.before, token, rest⟩ :=
    ⟨hstep ▸ ahead_step cursor, rfl⟩
  exact hone.trans hspans

/-- The cursors are on two brackets of the shape that belong together. -/
structure Encloses (shape : Bracket) (opening closing : Cursor) : Prop where
  opens : opening.current.kind = .opening shape
  closes : closing.current.kind = .closing shape
  inside : ∃ tokens, Token.Balanced shape tokens ∧ opening.Spans (opening.current :: tokens) closing

theorem Encloses.ahead {shape : Bracket} (h : cursor.Encloses shape later) : cursor.Ahead later := by
  obtain ⟨tokens, -, hspans⟩ := h.inside
  exact hspans.ahead

/-- From one bracket to behind the other, there are semicolons only between the two. -/
theorem Encloses.spares {shape : Bracket} {closing : Cursor} (h : cursor.Encloses shape closing)
    (hfree : ∀ index, cursor.position < index → index < closing.position → free index) :
    cursor.Spares free closing.advance := by
  have hinside : cursor.Spares free closing := by
    refine ⟨h.ahead, fun index token hle hlt htoken hkind => hfree index ?_ hlt⟩
    rcases Nat.lt_or_eq_of_le hle with hindex | rfl
    · exact hindex
    · rw [getElem?_position] at htoken
      cases htoken
      rw [h.opens] at hkind
      cases hkind
  refine hinside.advance_of_ne ?_
  rw [h.closes]
  exact TokenKind.noConfusion

end Cursor

/-! ## Groups in parentheses -/

theorem Token.depthBehind?_newlines {shape : Bracket} {breaks : List Token}
    (h : ∀ token ∈ breaks, token.kind = .newline) (depth : Nat) (rest : List Token) :
    depthBehind? shape depth (breaks ++ rest) = depthBehind? shape depth rest := by
  induction breaks with
  | nil => rfl
  | cons token breaks ih =>
    rw [List.cons_append, depthBehind?_cons, h token (by simp)]
    exact ih fun token htoken => h token (List.mem_cons_of_mem _ htoken)

namespace CursorM

open Cursor (spans_advance)

variable {cursor later : Cursor} {start : Token} {steps depth : Nat}

/-- The rest of a group ends behind the parenthesis that closes it. -/
theorem spans_skipGroupRest (hend : cursor.Terminated) (h : skipGroupRest start steps depth cursor = .ok () later) :
    ∃ (tokens : List Token) (closing : Cursor), cursor.Spans tokens closing ∧
      Token.depthBehind? .round depth tokens = some 0 ∧ closing.current.kind = .closing .round ∧
      later = closing.advance := by
  induction steps generalizing depth cursor with
  | zero => cases h
  | succ steps ih =>
    rw [skipGroupRest_succ] at h
    obtain ⟨kind, _, hcurrent, h⟩ := bind_eq_ok.1 h
    cases hcurrent
    split at h
    · cases h
    rename_i heof
    obtain ⟨breaks, hbreaks, hspans⟩ := spans_advance hend heof
    -- The token at the cursor is read, the depth behind it is `depth'`, and the rest is skipped from there.
    have hnext : ∀ {depth' : Nat}, skipGroupRest start steps depth' cursor.advance = .ok () later →
        (∀ tokens, Token.depthBehind? .round depth (cursor.current :: tokens) =
          Token.depthBehind? .round depth' tokens) →
        ∃ (tokens : List Token) (closing : Cursor), cursor.Spans tokens closing ∧
          Token.depthBehind? .round depth tokens = some 0 ∧ closing.current.kind = .closing .round ∧
          later = closing.advance := by
      intro depth' hrun hdepth
      obtain ⟨tokens, closing, hrest, htokens, hclosing⟩ := ih (hend.ahead (Cursor.ahead_advance cursor)) hrun
      refine ⟨_, closing, hspans.trans hrest, ?_, hclosing⟩
      rw [List.cons_append, hdepth, Token.depthBehind?_newlines hbreaks, htokens]
    split at h
    · rename_i hopening
      obtain ⟨_, _, hadvance, h⟩ := bind_eq_ok.1 h
      cases hadvance
      exact hnext h fun tokens => by rw [Token.depthBehind?_cons, if_pos hopening]
    rename_i hopening
    split at h
    · rename_i hclosing
      cases depth with
      | zero =>
        obtain ⟨_, _, hadvance, h⟩ := bind_eq_ok.1 h
        cases hadvance
        cases h
        exact ⟨[], cursor, ⟨Cursor.lasting_ahead.refl cursor, rfl⟩, rfl, hclosing, rfl⟩
      | succ depth =>
        obtain ⟨_, _, hadvance, h⟩ := bind_eq_ok.1 h
        cases hadvance
        exact hnext h fun tokens => by rw [Token.depthBehind?_cons, if_neg hopening, if_pos hclosing]
    · rename_i hclosing
      obtain ⟨_, _, hadvance, h⟩ := bind_eq_ok.1 h
      cases hadvance
      exact hnext h fun tokens => by rw [Token.depthBehind?_cons, if_neg hopening, if_neg hclosing]

theorem encloses_skipGroup (hend : cursor.Terminated) (h : skipGroup cursor = .ok () later) :
    ∃ closing : Cursor, cursor.Encloses .round closing ∧ later = closing.advance := by
  obtain ⟨_, _, hopening, h⟩ := bind_eq_ok.1 h
  obtain ⟨hkind, -, rfl⟩ := expect_eq_ok.1 hopening
  obtain ⟨_, _, hget, h⟩ := bind_eq_ok.1 h
  cases hget
  obtain ⟨breaks, hbreaks, hspans⟩ := spans_advance hend (by rw [hkind]; exact TokenKind.noConfusion)
  obtain ⟨tokens, closing, hrest, hdepth, hclosing, hlater⟩ :=
    spans_skipGroupRest (hend.ahead (Cursor.ahead_advance cursor)) h
  refine ⟨closing, ⟨hkind, hclosing, breaks ++ tokens, ?_, hspans.trans hrest⟩, hlater⟩
  rw [Token.Balanced, Token.depthBehind?_newlines hbreaks, hdepth]

end CursorM

/-! ## Bodies in braces -/

/-- The tokens of a body close all braces that they open. -/
theorem Token.depthBehind?_of_curlyBody? {depth : Nat} {tokens body : List Token}
    (h : curlyBody? depth tokens = some body) : depthBehind? .curly depth body = some 0 := by
  induction tokens generalizing depth body with
  | nil => cases h
  | cons token rest ih =>
    rw [curlyBody?_cons] at h
    split at h
    · rename_i hopening
      obtain ⟨inner, hinner, rfl⟩ := Option.map_eq_some_iff.1 h
      rw [depthBehind?_cons, if_pos hopening, ih hinner]
    rename_i hopening
    split at h
    · rename_i hclosing
      cases depth with
      | zero =>
        cases h
        rfl
      | succ depth =>
        obtain ⟨inner, hinner, rfl⟩ := Option.map_eq_some_iff.1 h
        rw [depthBehind?_cons, if_neg hopening, if_pos hclosing]
        exact ih hinner
    · rename_i hclosing
      obtain ⟨inner, hinner, rfl⟩ := Option.map_eq_some_iff.1 h
      rw [depthBehind?_cons, if_neg hopening, if_neg hclosing, ih hinner]

theorem CursorM.encloses_body {cursor later : Cursor} {tokens : List Token} (h : body cursor = .ok tokens later) :
    ∃ closing : Cursor, cursor.Encloses .curly closing ∧ later = closing.advance := by
  change (if cursor.current.kind = .opening .curly then _ else unexpectedCurrent : CursorM _) cursor = _ at h
  split at h
  · rename_i hopening
    cases hbody : Token.curlyBody? 0 cursor.rest with
    | none =>
      rw [hbody] at h
      cases h
    | some passed =>
      rw [hbody] at h
      cases h
      obtain ⟨brace, more, hrest, hbrace, -⟩ := Token.curlyBody?_eq_some hbody
      have hstep : Nat.repeat Cursor.step (passed.length + 1) cursor =
          ⟨passed.reverse ++ cursor.current :: cursor.before, brace, more⟩ := by
        rw [← Cursor.repeat_step_append, ← hrest]
      have hahead := Cursor.ahead_repeat_step (passed.length + 1) cursor
      rw [hstep] at hahead ⊢
      refine ⟨_, ⟨hopening, hbrace, passed, Token.depthBehind?_of_curlyBody? hbody, hahead, ?_⟩, rfl⟩
      rw [List.reverse_cons, List.append_assoc]
      rfl
  · cases h

/-! ## Heads of lambdas -/

theorem CursorM.currentKind_eq_ok {cursor later : Cursor} {kind : TokenKind} :
    currentKind cursor = .ok kind later ↔ cursor.current.kind = kind ∧ later = cursor := by
  constructor
  · intro h
    cases h
    exact ⟨rfl, rfl⟩
  · rintro ⟨rfl, rfl⟩
    rfl

namespace Cursor

/-- There is no semicolon and no opening brace from the cursor up to `later`. -/
abbrev Heads (cursor later : Cursor) : Prop :=
  cursor.Crosses (fun _ token => token.kind ≠ .semicolon ∧ token.kind ≠ .opening .curly) later

variable {start cursor later : Cursor}

theorem Heads.advance (h : start.Heads cursor)
    (hkind : cursor.current.kind ≠ .semicolon ∧ cursor.current.kind ≠ .opening .curly) : start.Heads cursor.advance :=
  h.trans (crosses_advance (fun _ _ hnewline => by simp [hnewline]) hkind)

theorem Heads.expect (h : start.Heads cursor) {kind : TokenKind} {token : Token}
    (hrun : CursorM.expect kind cursor = .ok token later) (hkind : kind ≠ .semicolon ∧ kind ≠ .opening .curly) :
    start.Heads later := by
  obtain ⟨rfl, -, rfl⟩ := CursorM.expect_eq_ok.1 hrun
  exact h.advance hkind

theorem Heads.declaredType (h : start.Heads cursor) {type : DeclaredType}
    (hrun : CursorM.declaredType cursor = .ok type later) : start.Heads later := by
  obtain ⟨_, _, hcurrent, hrun⟩ := bind_eq_ok.1 hrun
  cases hcurrent
  split at hrun
  · rename_i hcolon
    obtain ⟨_, _, hadvance, hrun⟩ := bind_eq_ok.1 hrun
    cases hadvance
    obtain ⟨_, _, hname, hrun⟩ := bind_eq_ok.1 hrun
    cases hrun
    exact (h.advance (by simp [hcolon])).expect hname (by simp)
  · cases hrun
    exact h

theorem Heads.parameters (h : start.Heads cursor) {steps : Nat} {read : List Parameter}
    (hrun : CursorM.parameters steps cursor = .ok read later) : start.Heads later := by
  induction steps generalizing cursor read with
  | zero => cases hrun
  | succ steps ih =>
    obtain ⟨_, _, hcurrent, hrun⟩ := bind_eq_ok.1 hrun
    cases hcurrent
    split at hrun
    · cases hrun
      exact h
    · obtain ⟨_, _, hname, hrun⟩ := bind_eq_ok.1 hrun
      obtain ⟨_, next, htype, hrun⟩ := bind_eq_ok.1 hrun
      have h := (h.expect hname (by simp)).declaredType htype
      obtain ⟨kind, _, hcurrent, hmore⟩ := bind_eq_ok.1 hrun
      obtain ⟨hkind, rfl⟩ := CursorM.currentKind_eq_ok.1 hcurrent
      split at hmore
      · obtain ⟨_, _, hadvance, hmore⟩ := bind_eq_ok.1 hmore
        cases hadvance
        obtain ⟨_, _, hrest, hmore⟩ := bind_eq_ok.1 hmore
        cases hmore
        exact ih (h.advance (by simp [hkind])) hrest
      · obtain ⟨_, _, hrest, hmore⟩ := bind_eq_ok.1 hmore
        cases hmore
        exact ih h hrest
      · cases hmore

theorem Heads.typeNames (h : start.Heads cursor) {steps : Nat} {types read : TypeSet}
    (hrun : CursorM.typeNames steps types cursor = .ok read later) : start.Heads later := by
  induction steps generalizing cursor types with
  | zero => cases hrun
  | succ steps ih =>
    obtain ⟨_, next, hname, hrun⟩ := bind_eq_ok.1 hrun
    have h := h.expect hname (by simp)
    obtain ⟨kind, _, hcurrent, hmore⟩ := bind_eq_ok.1 hrun
    obtain ⟨hkind, rfl⟩ := CursorM.currentKind_eq_ok.1 hcurrent
    split at hmore
    · obtain ⟨_, _, hadvance, hmore⟩ := bind_eq_ok.1 hmore
      cases hadvance
      exact ih (h.advance (by simp [hkind])) hmore
    · cases hmore
      exact h
    · cases hmore

theorem Heads.returnTypes (h : start.Heads cursor) {types : TypeSet}
    (hrun : CursorM.returnTypes cursor = .ok types later) : start.Heads later := by
  obtain ⟨_, _, hcurrent, hrun⟩ := bind_eq_ok.1 hrun
  cases hcurrent
  split at hrun
  · rename_i harrow
    obtain ⟨_, _, hadvance, hrun⟩ := bind_eq_ok.1 hrun
    cases hadvance
    have h := h.advance (by simp [harrow])
    obtain ⟨_, _, hcurrent, hrun⟩ := bind_eq_ok.1 hrun
    cases hcurrent
    split at hrun
    · rename_i hopening
      obtain ⟨_, _, hadvance, hrun⟩ := bind_eq_ok.1 hrun
      cases hadvance
      have h := h.advance (by simp [hopening])
      obtain ⟨_, _, hnames, hrun⟩ := bind_eq_ok.1 hrun
      obtain ⟨_, _, hget, hnames⟩ := bind_eq_ok.1 hnames
      cases hget
      obtain ⟨_, _, hclosing, hrun⟩ := bind_eq_ok.1 hrun
      cases hrun
      exact (h.typeNames hnames).expect hclosing (by simp)
    · obtain ⟨_, _, hname, hrun⟩ := bind_eq_ok.1 hrun
      cases hrun
      exact h.expect hname (by simp)
  · cases hrun
    exact h

end Cursor

/-- A lambda is a head, from its keyword to a brace, and a body from there. -/
theorem CursorM.encloses_lambda {cursor later : Cursor} {function : Function}
    (h : lambda cursor = .ok function later) : cursor.current.isKeywordOf "lambda" = true ∧
      ∃ opening closing : Cursor, cursor.Heads opening ∧ opening.Encloses .curly closing ∧
        later = closing.advance := by
  obtain ⟨_, _, hkeyword, h⟩ := bind_eq_ok.1 h
  obtain ⟨hlambda, -, rfl⟩ := expectKeyword_eq_ok.1 hkeyword
  have hstart : cursor.Heads cursor := Cursor.crosses_refl cursor
  have hheads := hstart.advance (by simp [Cursor.kind_of_isKeywordOf hlambda])
  obtain ⟨_, _, hopening, h⟩ := bind_eq_ok.1 h
  have hheads := hheads.expect hopening (by simp)
  obtain ⟨_, _, hparameters, h⟩ := bind_eq_ok.1 h
  obtain ⟨_, _, hget, hparameters⟩ := bind_eq_ok.1 hparameters
  cases hget
  have hheads := hheads.parameters hparameters
  obtain ⟨_, _, hclosing, h⟩ := bind_eq_ok.1 h
  have hheads := hheads.expect hclosing (by simp)
  obtain ⟨_, brace, htypes, h⟩ := bind_eq_ok.1 h
  have hheads := hheads.returnTypes htypes
  obtain ⟨_, _, hget, h⟩ := bind_eq_ok.1 h
  cases hget
  obtain ⟨_, _, hbody, h⟩ := bind_eq_ok.1 h
  cases h
  obtain ⟨closing, hencloses, hlater⟩ := encloses_body hbody
  exact ⟨hlambda, brace, closing, hheads, hencloses, hlater⟩

/-! ## Shelter -/

namespace Cursor

/-- The index is inside a group in parentheses or inside the body of a lambda, and that was opened at the cursor or
behind it. -/
inductive Covers (origin : Cursor) (index : Nat) : Prop where
  | group {opening closing : Cursor} : origin.Ahead opening → opening.Encloses .round closing →
      opening.position < index → index < closing.position → Covers origin index
  | body {keyword opening closing : Cursor} : origin.Ahead keyword → keyword.current.isKeywordOf "lambda" = true →
      keyword.Heads opening → opening.Encloses .curly closing → opening.position < index →
      index < closing.position → Covers origin index

/-- An expression that is skipped can start at the cursor: what is skipped from `origin` on does, and so does each
branch of an `if` at `origin` or behind it, right behind the condition or behind `else`. -/
inductive StartsBranch (origin : Cursor) : Cursor → Prop where
  | outset : StartsBranch origin origin
  | condition {cursor closing : Cursor} : origin.Ahead cursor → cursor.current.isKeywordOf "if" = true →
      cursor.advance.Encloses .round closing → StartsBranch origin closing.advance
  | alternative {cursor : Cursor} : origin.Ahead cursor → cursor.current.isKeywordOf "else" = true →
      StartsBranch origin cursor.advance

/-- The index is covered, or it is that of the first token of an expression that is skipped. -/
def Shelters (origin : Cursor) (index : Nat) : Prop :=
  origin.Covers index ∨ ∃ cursor, origin.StartsBranch cursor ∧ cursor.skipLineBreaks.position = index

end Cursor

/-! ## Skipping -/

namespace CursorM

variable {free : Nat → Prop} {origin cursor later : Cursor}

theorem spares_skipGroup (hcovers : ∀ index, origin.Covers index → free index) (hend : cursor.Terminated)
    (h : origin.Spares free cursor) (hrun : skipGroup cursor = .ok () later) : origin.Spares free later := by
  obtain ⟨closing, hencloses, rfl⟩ := encloses_skipGroup hend hrun
  exact h.trans (hencloses.spares fun index hlt hlt' => hcovers index (.group h.ahead hencloses hlt hlt'))

theorem spares_lambda (hcovers : ∀ index, origin.Covers index → free index) (h : origin.Spares free cursor)
    {function : Function} (hrun : lambda cursor = .ok function later) : origin.Spares free later := by
  obtain ⟨hlambda, opening, closing, hheads, hencloses, rfl⟩ := encloses_lambda hrun
  have hhead : cursor.Spares free opening := hheads.mono fun _ _ hplain hkind => absurd hkind hplain.1
  refine h.trans (hhead.trans (hencloses.spares fun index hlt hlt' => hcovers index ?_))
  exact .body h.ahead hlambda hheads hencloses hlt hlt'

/-- An expression takes in a semicolon only as its first token. -/
theorem position_of_semicolon {first : Nat} {balanced : Bool} (h : cursor.boundary first balanced = .inside)
    (hkind : cursor.current.kind = .semicolon) : cursor.position = first := by
  by_cases hposition : cursor.position = first
  · exact hposition
  · rw [Cursor.boundary, hkind, if_neg (by simp), if_neg hposition] at h
    cases h

/-- Skipping a ternary, if skipping an expression from where a branch starts keeps semicolons spared. -/
theorem spares_skipTernary {expression : CursorM Unit} (hshelters : ∀ index, origin.Shelters index → free index)
    (hexpression : ∀ {cursor later : Cursor}, cursor.Terminated → origin.Spares free cursor →
      origin.StartsBranch cursor → expression cursor = .ok () later → origin.Spares free later)
    (hadvances : Advances expression) (hend : cursor.Terminated) (h : origin.Spares free cursor)
    (hrun : skipTernary expression cursor = .ok () later) :
    origin.Spares free later ∧ cursor.position < later.position := by
  obtain ⟨_, _, hkeyword, hrun⟩ := bind_eq_ok.1 hrun
  obtain ⟨hif, -, rfl⟩ := expectKeyword_eq_ok.1 hkeyword
  have hpast := Cursor.past_advance hend (by simp [Cursor.kind_of_isKeywordOf hif])
  obtain ⟨_, next, hgroup, hrun⟩ := bind_eq_ok.1 hrun
  have hspares := spares_skipGroup (fun index hcovers => hshelters index (.inl hcovers)) hpast.terminated
    (h.expectKeyword hkeyword) hgroup
  obtain ⟨closing, hencloses, rfl⟩ := encloses_skipGroup hpast.terminated hgroup
  have hpast := (closed_advances.skipGroup).past hgroup hpast
  obtain ⟨_, middle, hfirst, hrun⟩ := bind_eq_ok.1 hrun
  have hspares := hexpression hpast.terminated hspares (.condition h.ahead hif hencloses) hfirst
  have hpast := hadvances.past hfirst hpast
  obtain ⟨_, _, hkeyword, hrun⟩ := bind_eq_ok.1 hrun
  obtain ⟨helse, -, rfl⟩ := expectKeyword_eq_ok.1 hkeyword
  have hpast := (advances_expectKeyword _).past hkeyword hpast
  have hlast := hexpression hpast.terminated (hspares.expectKeyword hkeyword) (.alternative hspares.ahead helse) hrun
  exact ⟨hlast, (hadvances.past hrun hpast).position⟩

/-- Moves past a branch of a ternary, in at most `steps` steps. -/
def skipBranch (steps : Nat) : CursorM Unit := do
  skipLineBreaks
  skipRest steps (← get).position []

theorem advances_skipBranch (steps : Nat) : Advances (skipBranch steps) :=
  advances_skipLineBreaks.bind fun _ => Keeps.get.bind fun _ => closed_advances.skipRest _ _ _

/-- Behind its first token, an expression that is skipped ends at a semicolon of its own. -/
theorem spares_skipRest {steps first : Nat} {waiting : List TokenKind}
    (hshelters : ∀ index, origin.Shelters index → free index) (hend : cursor.Terminated)
    (hfirst : first ≤ cursor.position)
    (hstart : cursor.position = first → cursor.current.kind = .semicolon → free cursor.position)
    (h : origin.Spares free cursor) (hrun : skipRest steps first waiting cursor = .ok () later) :
    origin.Spares free later := by
  induction steps generalizing first waiting cursor later with
  | zero => cases hrun
  | succ steps ih =>
    have hcovers : ∀ index, origin.Covers index → free index := fun index hcover => hshelters index (.inl hcover)
    rw [skipRest, bind_get] at hrun
    cases hboundary : cursor.boundary first waiting.isEmpty with
    | ends =>
      rw [hboundary] at hrun
      cases hrun
      exact h
    | clash =>
      rw [hboundary] at hrun
      cases hrun
    | inside =>
      rw [hboundary] at hrun
      have hpast := Cursor.past_advance hend (Cursor.kind_ne_eof_of_inside hboundary)
      -- The cursor has left the first token, so the loop goes on with nothing left to show at the start.
      have hnext : ∀ {next : Cursor} {waiting : List TokenKind}, cursor.Past next → origin.Spares free next →
          skipRest steps first waiting next = .ok () later → origin.Spares free later := by
        intro next waiting hpast hspares hrun
        have hposition := hpast.position
        exact ih hpast.terminated (by omega) (fun heq => by omega) hspares hrun
      dsimp only at hrun
      split at hrun
      · rename_i hcall
        rw [Bool.and_eq_true] at hcall
        have hkind : cursor.current.kind ≠ .semicolon := fun hkind => by
          rw [hkind] at hcall
          cases hcall.1
        obtain ⟨_, _, hadvance, hrun⟩ := bind_eq_ok.1 hrun
        cases hadvance
        obtain ⟨_, next, hgroup, hrun⟩ := bind_eq_ok.1 hrun
        have hspares := spares_skipGroup hcovers hpast.terminated (h.advance_of_ne hkind) hgroup
        exact hnext ((closed_advances.skipGroup).past hgroup hpast) hspares hrun
      split at hrun
      · obtain ⟨_, next, hternary, hrun⟩ := bind_eq_ok.1 hrun
        have hbranch : ∀ {branch last : Cursor}, branch.Terminated → origin.Spares free branch →
            origin.StartsBranch branch → skipBranch steps branch = .ok () last → origin.Spares free last := by
          intro branch last hend hspares hstarts hrun
          obtain ⟨_, _, hskip, hrun⟩ := bind_eq_ok.1 hrun
          cases hskip
          obtain ⟨_, _, hget, hrun⟩ := bind_eq_ok.1 hrun
          cases hget
          have hshelter := hshelters _ (.inr ⟨branch, hstarts, rfl⟩)
          exact ih (hend.ahead (Cursor.ahead_skipWhile branch _)) (Nat.le_refl _) (fun _ _ => hshelter)
            hspares.skipLineBreaks hrun
        obtain ⟨hspares, hposition⟩ :=
          spares_skipTernary hshelters hbranch (advances_skipBranch steps) hend h hternary
        have hahead := (closed_advances.skipTernary (advances_skipBranch steps)).ok hternary
        exact hnext ⟨hposition, hend.ahead hahead⟩ hspares hrun
      split at hrun
      · obtain ⟨_, next, hlambda, hrun⟩ := bind_eq_ok.1 hrun
        have hposition := (completes_lambda hend (Cursor.kind_ne_eof_of_inside hboundary) hlambda).position
        exact hnext ⟨hposition, hend.ahead (advances_lambda.ok hlambda)⟩ (spares_lambda hcovers h hlambda) hrun
      · obtain ⟨_, _, hadvance, hrun⟩ := bind_eq_ok.1 hrun
        cases hadvance
        refine hnext hpast (h.advance fun hkind => ?_) hrun
        exact hstart (position_of_semicolon hboundary hkind) hkind

/-- A whole expression is skipped from a cursor at which it is free to start with a semicolon. -/
theorem spares_skipExpression (hshelters : ∀ index, origin.Shelters index → free index) (hend : cursor.Terminated)
    (hstart : cursor.skipLineBreaks.current.kind = .semicolon → free cursor.skipLineBreaks.position)
    (h : origin.Spares free cursor) (hrun : skipExpression cursor = .ok () later) : origin.Spares free later := by
  obtain ⟨_, _, hskip, hrun⟩ := bind_eq_ok.1 hrun
  cases hskip
  obtain ⟨_, _, hget, hrun⟩ := bind_eq_ok.1 hrun
  cases hget
  obtain ⟨_, _, hget, hrun⟩ := bind_eq_ok.1 hrun
  cases hget
  exact spares_skipRest hshelters (hend.ahead (Cursor.ahead_skipWhile cursor _)) (Nat.le_refl _) (fun _ => hstart)
    h.skipLineBreaks hrun

end CursorM

end GradualScript
