import GradualScript.Proofs.Expression.Shelter
import GradualScript.Proofs.Walk.Spacing

/-!
# Semicolons that stay

A ternary evaluates one branch and skips the other. A semicolon ends both, unless it is inside a group in parentheses
or inside the body of a lambda, or comes first in what is skipped.

* `Executor.Refuses` : where a branch starts that is skipped since its condition came out false;
* `WalkM.Sparing` : reading passes no semicolon but sheltered ones; `sparing_ternary`, `sparing_element`, … say so of
  each form;
* `semicolon_stays` : what a ternary and what skipping pass over;
* `ternary_emptyBranch` : a semicolon that a ternary takes in.
-/

set_option autoImplicit false

namespace GradualScript

/-- A branch starts at the cursor that is skipped: the condition of an `if`, which stands at `origin` or behind it, was
read up to there and came out false. -/
inductive Executor.Refuses (executor : Executor) (origin : Cursor) : Cursor → Prop where
  | mk {cursor : Cursor} {context : Context} {steps : Nat} {later : Walk} : origin.Ahead cursor →
      cursor.current.isKeywordOf "if" = true → cursor.advance.current.kind = .opening .round →
      WalkM.valueOf (WalkM.expressionWithin executor steps) ⟨cursor.advance.advance, context⟩ =
        .ok (.bool false) later →
      later.cursor.current.kind = .closing .round → Refuses executor origin later.cursor.advance

/-- The index is sheltered from what is skipped, or it is that of the first token of a refused branch. -/
def Executor.Shelters (executor : Executor) (origin : Cursor) (index : Nat) : Prop :=
  origin.Shelters index ∨ ∃ cursor, executor.Refuses origin cursor ∧ cursor.skipLineBreaks.position = index

namespace WalkM

open CursorM

variable {α : Type} {executor : Executor} {origin : Cursor} {inner : WalkM Expression} {steps : Nat}

/-- Every semicolon from `origin` to the cursor of the walk is sheltered. -/
abbrev Spared (executor : Executor) (origin : Cursor) (walk : Walk) : Prop :=
  origin.Spares (executor.Shelters origin) walk.cursor

/-- If every semicolon up to the walk is sheltered and the computation succeeds, then every semicolon up to its end
is. -/
def Sparing (executor : Executor) (origin : Cursor) (m : WalkM α) : Prop :=
  ∀ {walk later : Walk} {a : α}, Spared executor origin walk → m walk = .ok a later → Spared executor origin later

theorem sparing_expect {kind : TokenKind} (hkind : kind ≠ .semicolon) :
    Sparing executor origin (ofCursor (expect kind)) :=
  fun hspared h => hspared.expect (ofCursor_eq_ok h) hkind

theorem sparing_expectKeyword (word : String) : Sparing executor origin (ofCursor (expectKeyword word)) :=
  fun hspared h => hspared.expectKeyword (ofCursor_eq_ok h)

theorem sparing_still {m : WalkM α} (hm : Keeps Still m) : Sparing executor origin m := by
  intro walk later a hspared h
  rw [Spared, show later.cursor = walk.cursor from hm.ok h]
  exact hspared

theorem sparing_valueOf (hinner : Sparing executor origin inner) : Sparing executor origin (valueOf inner) := by
  intro walk later item hspared h
  obtain ⟨expression, hrun, -⟩ := exists_of_valueOf h
  exact hinner hspared hrun

/-! ## Calls -/

theorem sparing_argumentList (hinner : Sparing executor origin inner) :
    Sparing executor origin (argumentList inner steps) := by
  intro walk later items hspared h
  induction steps generalizing walk items with
  | zero => cases h
  | succ steps ih =>
    rw [argumentList_succ] at h
    obtain ⟨item, next, hvalue, h⟩ := bind_eq_ok.1 h
    have hspared := sparing_valueOf hinner hspared hvalue
    obtain ⟨kind, _, hcurrent, h⟩ := bind_eq_ok.1 h
    cases hcurrent
    split at h
    · rename_i hcomma
      obtain ⟨_, _, hadvance, h⟩ := bind_eq_ok.1 h
      cases hadvance
      obtain ⟨rest, _, hrest, h⟩ := bind_eq_ok.1 h
      cases h
      exact ih (hspared.advance_of_ne (by simp [hcomma])) hrest
    · split at h
      · rename_i hclosing
        obtain ⟨_, _, hadvance, h⟩ := bind_eq_ok.1 h
        cases hadvance
        cases h
        exact hspared.advance_of_ne (by simp [hclosing])
      · cases h

theorem sparing_arguments (hinner : Sparing executor origin inner) :
    Sparing executor origin (arguments inner steps) := by
  intro walk later items hspared h
  obtain ⟨_, next, hopening, h⟩ := bind_eq_ok.1 h
  have hspared := sparing_expect (by simp) hspared hopening
  obtain ⟨kind, _, hcurrent, h⟩ := bind_eq_ok.1 h
  cases hcurrent
  split at h
  · rename_i hclosing
    obtain ⟨_, _, hadvance, h⟩ := bind_eq_ok.1 h
    cases hadvance
    cases h
    exact hspared.advance_of_ne (by simp [hclosing])
  · exact sparing_argumentList hinner hspared h

variable {walk later : Walk}

theorem spared_functionCall (hinner : Sparing executor origin inner) (hspared : Spared executor origin walk)
    (hkind : walk.cursor.current.kind ≠ .semicolon) {result : CallResult}
    (h : functionCall executor inner steps walk = .ok result later) : Spared executor origin later := by
  obtain ⟨_, _, hline, h⟩ := bind_eq_ok.1 h
  cases hline
  obtain ⟨_, _, hadvance, h⟩ := bind_eq_ok.1 h
  cases hadvance
  obtain ⟨items, next, harguments, h⟩ := bind_eq_ok.1 h
  refine sparing_still ?_ (sparing_arguments hinner (hspared.advance_of_ne hkind) harguments) h
  refine Keeps.get.bind fun walk => ?_
  dsimp only
  split
  · exact still_hostCall _ _ _
  · split
    · exact still_ofContext _
    · exact Keeps.throw _

theorem spared_constructorCall (hinner : Sparing executor origin inner) (hspared : Spared executor origin walk)
    (hkind : walk.cursor.current.kind ≠ .semicolon) {item : Item}
    (h : constructorCall inner steps walk = .ok item later) : Spared executor origin later := by
  obtain ⟨_, _, hline, h⟩ := bind_eq_ok.1 h
  cases hline
  obtain ⟨_, _, hadvance, h⟩ := bind_eq_ok.1 h
  cases hadvance
  obtain ⟨items, next, harguments, h⟩ := bind_eq_ok.1 h
  refine sparing_still ?_ (sparing_arguments hinner (hspared.advance_of_ne hkind) harguments) h
  refine Keeps.get.bind fun walk => ?_
  split
  · split
    · exact Keeps.pure _
    · exact Keeps.throw _
  · exact Keeps.throw _

theorem spared_callSite (hinner : Sparing executor origin inner) (hspared : Spared executor origin walk)
    (hkind : walk.cursor.current.kind ≠ .semicolon) {item : Item}
    (h : callSite executor inner steps walk = .ok item later) : Spared executor origin later := by
  obtain ⟨token, _, hcurrent, h⟩ := bind_eq_ok.1 h
  cases hcurrent
  obtain ⟨_, _, hget, h⟩ := bind_eq_ok.1 h
  cases hget
  generalize (if walk.cursor.current.kind = .name then walk.context.nameKind walk.cursor.current.text
    else NameKind.undeclared) = nameKind at h
  cases nameKind with
  | function =>
    obtain ⟨result, _, hcall, h⟩ := bind_eq_ok.1 h
    cases h
    exact spared_functionCall hinner hspared hkind hcall
  | constructor => exact spared_constructorCall hinner hspared hkind h
  | value => cases h
  | undeclared => cases h

/-! ## Ternaries, assignments and names -/

/-- The reader of expressions is the one of the executor, in some number of steps. -/
def Within (executor : Executor) (inner : WalkM Expression) : Prop :=
  ∀ walk, ∃ steps, inner walk = expressionWithin executor steps walk

theorem Within.exists_valueOf (hwithin : Within executor inner) (walk : Walk) :
    ∃ steps, valueOf inner walk = valueOf (expressionWithin executor steps) walk := by
  obtain ⟨steps, hsteps⟩ := hwithin walk
  refine ⟨steps, ?_⟩
  cases hrun : inner walk with
  | ok expression next =>
    rw [valueOf, valueOf, bind_of_ok hrun, bind_of_ok (hsteps ▸ hrun)]
  | error failure next =>
    rw [valueOf, valueOf, bind_of_error hrun, bind_of_error (hsteps ▸ hrun)]

theorem spared_skipExpression (hend : origin.Terminated) (hspared : Spared executor origin walk)
    (hstart : executor.Shelters origin walk.cursor.skipLineBreaks.position)
    (h : ofCursor skipExpression walk = .ok () later) : Spared executor origin later :=
  CursorM.spares_skipExpression (fun _ => .inl) (hend.ahead hspared.ahead) (fun _ => hstart) hspared (ofCursor_eq_ok h)

theorem sparing_ternary (hend : origin.Terminated) (hwithin : Within executor inner)
    (hinner : Sparing executor origin inner) : Sparing executor origin (ternary inner) := by
  intro walk later item hspared h
  obtain ⟨_, _, hline, h⟩ := bind_eq_ok.1 h
  cases hline
  obtain ⟨_, first, hkeyword, h⟩ := bind_eq_ok.1 h
  obtain ⟨hif, -, hfirst⟩ := expectKeyword_eq_ok.1 (ofCursor_eq_ok hkeyword)
  obtain ⟨_, ⟨second, context⟩, hopening, h⟩ := bind_eq_ok.1 h
  obtain ⟨hround, -, hsecond⟩ := expect_eq_ok.1 (ofCursor_eq_ok hopening)
  have hcondition := sparing_expect (by simp) (sparing_expectKeyword _ hspared hkeyword) hopening
  obtain ⟨condition, third, hvalue, h⟩ := bind_eq_ok.1 h
  have hcondition := sparing_valueOf hinner hcondition hvalue
  obtain ⟨_, fourth, hclosing, h⟩ := bind_eq_ok.1 h
  have hcondition := sparing_expect (by simp) hcondition hclosing
  cases condition with
  | bool condition =>
    cases condition with
    | true =>
      obtain ⟨_, _, hfirst, h⟩ := bind_eq_ok.1 h
      have hbranch := sparing_valueOf hinner hcondition hfirst
      obtain ⟨_, last, helse, h⟩ := bind_eq_ok.1 h
      obtain ⟨hkeyword, -, hlast⟩ := expectKeyword_eq_ok.1 (ofCursor_eq_ok helse)
      obtain ⟨_, _, hskip, h⟩ := bind_eq_ok.1 h
      cases h
      refine spared_skipExpression hend (sparing_expectKeyword _ hbranch helse) ?_ hskip
      exact .inl (.inr ⟨last.cursor, hlast ▸ .alternative hbranch.ahead hkeyword, rfl⟩)
    | false =>
      obtain ⟨steps, hsteps⟩ := hwithin.exists_valueOf ⟨second, context⟩
      obtain ⟨hround', -, hfourth⟩ := expect_eq_ok.1 (ofCursor_eq_ok hclosing)
      have hrefuses : executor.Refuses origin fourth.cursor := by
        rw [hsteps] at hvalue
        dsimp only at hsecond
        rw [hsecond, hfirst] at hvalue
        rw [hfourth]
        exact .mk hspared.ahead hif (hfirst ▸ hround) hvalue hround'
      obtain ⟨_, _, hskip, h⟩ := bind_eq_ok.1 h
      have hbranch := spared_skipExpression hend hcondition (.inr ⟨_, hrefuses, rfl⟩) hskip
      obtain ⟨_, _, helse, h⟩ := bind_eq_ok.1 h
      exact sparing_valueOf hinner (sparing_expectKeyword _ hbranch helse) h
  | int | float | char | string | function | unit | object => cases h

theorem spared_assignment (hinner : Sparing executor origin inner) (hspared : Spared executor origin walk)
    (hkind : walk.cursor.current.kind ≠ .semicolon) {item : Item} (h : assignment inner walk = .ok item later) :
    Spared executor origin later := by
  obtain ⟨_, _, hline, h⟩ := bind_eq_ok.1 h
  cases hline
  obtain ⟨_, _, hadvance, h⟩ := bind_eq_ok.1 h
  cases hadvance
  obtain ⟨_, next, hsign, h⟩ := bind_eq_ok.1 h
  have hspared := sparing_expect (by simp) (hspared.advance_of_ne hkind) hsign
  obtain ⟨_, _, hget, h⟩ := bind_eq_ok.1 h
  cases hget
  cases hfind : next.context.scopes.lookup? walk.cursor.current.text with
  | none =>
    rw [hfind] at h
    cases h
  | some binding =>
    rw [hfind] at h
    dsimp only at h
    split at h
    · obtain ⟨_, after, hvalue, h⟩ := bind_eq_ok.1 h
      obtain ⟨_, _, hassign, h⟩ := bind_eq_ok.1 h
      cases h
      exact sparing_still (still_ofContext _) (sparing_valueOf hinner hspared hvalue) hassign
    · cases h

theorem spared_nameValue (hinner : Sparing executor origin inner) (hspared : Spared executor origin walk)
    (hkind : walk.cursor.current.kind ≠ .semicolon) {item : Item} (h : nameValue inner walk = .ok item later) :
    Spared executor origin later := by
  obtain ⟨_, _, hget, h⟩ := bind_eq_ok.1 h
  cases hget
  split at h
  · cases h
  · split at h
    · exact spared_assignment hinner hspared hkind h
    · cases hfind : walk.context.scopes.lookup? walk.cursor.current.text with
      | none =>
        rw [hfind] at h
        cases h
      | some binding =>
        rw [hfind] at h
        cases h
        exact hspared.advance_of_ne hkind

theorem spared_thisValue (hspared : Spared executor origin walk) (hkind : walk.cursor.current.kind ≠ .semicolon)
    {item : Item} (h : thisValue walk = .ok item later) : Spared executor origin later := by
  obtain ⟨_, _, hget, h⟩ := bind_eq_ok.1 h
  cases hget
  cases hfind : walk.context.scopes.lookup? "this" with
  | none =>
    rw [hfind] at h
    cases h
  | some binding =>
    rw [hfind] at h
    cases h
    exact hspared.advance_of_ne hkind

/-! ## Expressions -/

theorem plainElement_semicolon {token : Token} {element : Element} (hkind : token.kind = .semicolon) :
    plainElement token walk ≠ .ok element later := by
  rw [plainElement, hkind]
  intro h
  cases h

/-- No element is read from a semicolon. -/
theorem sparing_element (hend : origin.Terminated) (hwithin : Within executor inner)
    (hinner : Sparing executor origin inner) : Sparing executor origin (element executor inner steps) := by
  intro walk later element hspared h
  obtain ⟨_, _, hget, h⟩ := bind_eq_ok.1 h
  cases hget
  split at h
  · rename_i hcall
    rw [Bool.and_eq_true] at hcall
    obtain ⟨item, _, hrun, h⟩ := bind_eq_ok.1 h
    cases h
    refine spared_callSite hinner hspared (fun hkind => ?_) hrun
    rw [hkind] at hcall
    cases hcall.1
  split at h
  · cases h
  split at h
  · cases h
  split at h
  · obtain ⟨item, _, hrun, h⟩ := bind_eq_ok.1 h
    cases h
    exact sparing_ternary hend hwithin hinner hspared hrun
  split at h
  · obtain ⟨function, _, hrun, h⟩ := bind_eq_ok.1 h
    cases h
    exact CursorM.spares_lambda (fun _ hcovers => .inl (.inl hcovers)) hspared (ofCursor_eq_ok hrun)
  split at h
  · cases h
  split at h
  · rename_i hname
    obtain ⟨item, _, hrun, h⟩ := bind_eq_ok.1 h
    cases h
    exact spared_nameValue hinner hspared (by simp [hname]) hrun
  split at h
  · rename_i hthis
    obtain ⟨item, _, hrun, h⟩ := bind_eq_ok.1 h
    cases h
    exact spared_thisValue hspared (Cursor.ne_semicolon_of_isKeywordOf hthis) hrun
  · obtain ⟨plain, next, hrun, hrest⟩ := bind_eq_ok.1 h
    have hkind : walk.cursor.current.kind ≠ .semicolon := fun hkind => plainElement_semicolon hkind hrun
    rw [(plainElement_spec hrun).1] at hrest
    obtain ⟨_, _, hadvance, hresult⟩ := bind_eq_ok.1 hrest
    cases hadvance
    cases hresult
    exact hspared.advance_of_ne hkind

theorem sparing_expressionBy {elementsFrom : Nat → WalkM (List Element)}
    (h : ∀ first, Sparing executor origin (elementsFrom first)) :
    Sparing executor origin (expressionBy elementsFrom) := by
  intro walk later expression hspared hrun
  obtain ⟨_, _, hskip, hrun⟩ := bind_eq_ok.1 hrun
  cases hskip
  obtain ⟨_, _, hget, hrun⟩ := bind_eq_ok.1 hrun
  cases hget
  obtain ⟨_, _, hread, hrun⟩ := bind_eq_ok.1 hrun
  cases hrun
  exact h _ hspared.skipLineBreaks hread

theorem sparing_elements (hend : origin.Terminated) (first : Nat) (waiting : List TokenKind) :
    Sparing executor origin (elements executor steps first waiting) := by
  induction steps generalizing first waiting with
  | zero =>
    intro walk later read _ h
    cases h
  | succ steps ih =>
    intro walk later read hspared h
    obtain ⟨_, _, hget, h⟩ := bind_eq_ok.1 h
    cases hget
    cases hboundary : walk.cursor.boundary first waiting.isEmpty with
    | ends =>
      rw [hboundary] at h
      cases h
      exact hspared
    | clash =>
      rw [hboundary] at h
      cases h
    | inside =>
      rw [hboundary] at h
      obtain ⟨_, next, helement, h⟩ := bind_eq_ok.1 h
      obtain ⟨_, _, hrest, h⟩ := bind_eq_ok.1 h
      cases h
      have hinner : Sparing executor origin (expressionBy (elements executor steps · [])) :=
        sparing_expressionBy fun first => ih first []
      have hnext := sparing_element hend (fun _ => ⟨steps, rfl⟩) hinner hspared helement
      exact ih first _ hnext hrest

theorem sparing_expression (hend : origin.Terminated) : Sparing executor origin (expression executor) := by
  intro walk later expression hspared h
  obtain ⟨_, _, hget, h⟩ := bind_eq_ok.1 h
  cases hget
  exact sparing_expressionBy (fun first => sparing_elements hend first []) hspared h

end WalkM

/-! ## Semicolons at the start -/

namespace CursorM

variable {cursor later : Cursor}

theorem skipRest_semicolon (hkind : cursor.current.kind = .semicolon) (steps : Nat) :
    skipRest (steps + 1) cursor.position [] cursor = skipRest steps cursor.position [] cursor.advance := by
  have hinside : cursor.boundary cursor.position true = .inside := Cursor.boundary_position (by simp [hkind]) true
  have hkeyword : ∀ word, cursor.current.isKeywordOf word = false := by
    intro word
    simp [Token.isKeywordOf, hkind]
  rw [skipRest, bind_get, List.isEmpty_nil, hinside]
  dsimp only
  rw [hkeyword, hkeyword, hkind]
  rfl

/-- Skipping takes in a semicolon that it starts at. -/
theorem position_lt_skipExpression (hend : cursor.Terminated)
    (hkind : cursor.skipLineBreaks.current.kind = .semicolon) (h : skipExpression cursor = .ok () later) :
    cursor.skipLineBreaks.position < later.position := by
  change skipRest (cursor.skipLineBreaks.rest.length + 1) cursor.skipLineBreaks.position [] cursor.skipLineBreaks =
    .ok () later at h
  rw [skipRest_semicolon hkind] at h
  have hnext : cursor.skipLineBreaks.Terminated := hend.ahead (Cursor.ahead_skipWhile cursor _)
  have hpast := Cursor.past_advance hnext (by rw [hkind]; exact TokenKind.noConfusion)
  exact ((closed_advances.skipRest _ _ _).past h hpast).position

end CursorM

/-- What is passed over. Every semicolon that skipping passes is inside a group in parentheses or inside the body of a
lambda that was opened on the way, or it is the first token of an expression that is skipped; a semicolon at which
skipping starts is passed. The same is true of a ternary, which skips a branch, so a semicolon behind it stays. -/
theorem semicolon_stays (executor : Executor) (cursor : Cursor) (context : Context) (hend : cursor.Terminated) :
    (∀ later, CursorM.skipExpression cursor = .ok () later → cursor.Spares cursor.Shelters later ∧
      (cursor.skipLineBreaks.current.kind = .semicolon → cursor.skipLineBreaks.position < later.position)) ∧
    ∀ item later, WalkM.ternary (WalkM.expression executor) ⟨cursor, context⟩ = .ok item later →
      cursor.Spares (executor.Shelters cursor) later.cursor := by
  refine ⟨fun later h => ⟨?_, fun hkind => CursorM.position_lt_skipExpression hend hkind h⟩, fun item later h => ?_⟩
  · exact CursorM.spares_skipExpression (fun _ => id) hend (fun _ => .inr ⟨cursor, .outset, rfl⟩)
      (Cursor.crosses_refl cursor) h
  · exact WalkM.sparing_ternary hend (fun walk => ⟨walk.cursor.rest.length + 1, rfl⟩) (WalkM.sparing_expression hend)
      (Cursor.crosses_refl cursor) h

/-- The tokens `if ( true ) 1 else f ( ; ) ; 2`. -/
def callBranch : Cursor where
  before := []
  current := ⟨.keyword, "if", .null⟩
  rest := [⟨.opening .round, "(", .null⟩, ⟨.bool, "true", .null⟩, ⟨.closing .round, ")", .null⟩, ⟨.int, "1", .null⟩,
    ⟨.keyword, "else", .null⟩, ⟨.name, "f", .null⟩, ⟨.opening .round, "(", .null⟩, ⟨.semicolon, ";", .null⟩,
    ⟨.closing .round, ")", .null⟩, ⟨.semicolon, ";", .null⟩, ⟨.int, "2", .null⟩, Token.eof]

/-- The first semicolon is inside a group, and the ternary stops at the second. -/
theorem semicolon_stays_callBranch :
    callBranch.Terminated ∧ ∃ later, WalkM.ternary (WalkM.expression (Executor.block 1)) ⟨callBranch, default⟩ =
      .ok (.int 1) later ∧ callBranch.Spares ((Executor.block 1).Shelters callBranch) later.cursor ∧
      later.cursor.position = 10 ∧ later.cursor.current.kind = .semicolon := by
  have hend : callBranch.Terminated := by decide
  have hrun : ∃ later, WalkM.ternary (WalkM.expression (Executor.block 1)) ⟨callBranch, default⟩ =
      .ok (.int 1) later ∧ later.cursor.position = 10 ∧ later.cursor.current.kind = .semicolon :=
    ⟨_, rfl, rfl, rfl⟩
  obtain ⟨later, hrun, hposition, hkind⟩ := hrun
  exact ⟨hend, later, hrun, (semicolon_stays _ _ _ hend).2 _ _ hrun, hposition, hkind⟩

/-- The tokens `if ( true ) 1 else ; 2`. -/
def emptyBranch : Cursor where
  before := []
  current := ⟨.keyword, "if", .null⟩
  rest := [⟨.opening .round, "(", .null⟩, ⟨.bool, "true", .null⟩, ⟨.closing .round, ")", .null⟩, ⟨.int, "1", .null⟩,
    ⟨.keyword, "else", .null⟩, ⟨.semicolon, ";", .null⟩, ⟨.int, "2", .null⟩, Token.eof]

/-- No bracket closes behind the semicolon. -/
theorem not_covers_emptyBranch : ¬ emptyBranch.Covers 6 := by
  have hclosing : ∀ {closing : Cursor} {shape : Bracket}, emptyBranch.Ahead closing → 6 < closing.position →
      closing.current.kind ≠ .closing shape := by
    intro closing shape hahead hlt hkind
    have hlength := closing.position_lt_length
    have hcurrent := closing.getElem?_position
    rw [hahead.tokens] at hlength hcurrent
    have hposition : closing.position = 7 ∨ closing.position = 8 := by
      change _ < 9 at hlength
      omega
    rcases hposition with hposition | hposition
    · rw [hposition] at hcurrent
      rw [← Option.some.inj hcurrent] at hkind
      cases hkind
    · rw [hposition] at hcurrent
      rw [← Option.some.inj hcurrent] at hkind
      cases hkind
  intro h
  cases h with
  | group hahead hencloses _ hlt =>
    exact hclosing (Cursor.lasting_ahead.trans hahead hencloses.ahead) hlt hencloses.closes
  | body hahead _ hheads hencloses _ hlt =>
    have hopening := Cursor.lasting_ahead.trans hahead hheads.ahead
    exact hclosing (Cursor.lasting_ahead.trans hopening hencloses.ahead) hlt hencloses.closes

/-- A branch without tokens is no branch: the ternary takes in the semicolon and what stands behind it. -/
theorem ternary_emptyBranch :
    emptyBranch.Terminated ∧ ∃ later, WalkM.ternary (WalkM.expression (Executor.block 1)) ⟨emptyBranch, default⟩ =
      .ok (.int 1) later ∧ later.cursor.current.kind = .eof ∧ ¬ emptyBranch.Spares emptyBranch.Covers later.cursor := by
  refine ⟨by decide, _, rfl, rfl, fun hspares => ?_⟩
  exact not_covers_emptyBranch (hspares.holds 6 ⟨.semicolon, ";", .null⟩ (by decide) (by decide) rfl rfl)

end GradualScript
