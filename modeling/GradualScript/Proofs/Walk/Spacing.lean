import GradualScript.Program
import GradualScript.Proofs.Cursor.Operand
import GradualScript.Proofs.OperatorTree.Spacing
import GradualScript.Proofs.Walk.Moves

/-!
# Nothing malformed is evaluated

Calls, ternaries, assignments and lambdas become values in the middle of an expression. Each of them moves the cursor
on and stops where no operand can start unnoticed, so values never come to stand next to each other.

* `WalkM.Forward` : the cursor goes ahead, whatever an executor does to the context;
* `Cursor.Completes` : a whole operand has been read between two cursors; `completes_ternary`,
  `completes_assignment`, … say so of each form;
* `readFrom_element` : where one element starts and ends;
* `spaced_elements` : the elements of an expression are spaced;
* `value_of_tree` : a value comes only out of a tree.
-/

set_option autoImplicit false

namespace GradualScript

open Cursor (Guarded Terminated ahead_advance guarded_advance guarded_of_ends kind_of_isKeywordOf position_lt_advance
  startsOperand startsOperand_of_isObject startsOperand_of_keyword startsOperand_operator)

instance lasting_true {σ : Type} : Lasting fun _ _ : σ => True where
  refl _ := trivial
  trans _ _ := trivial

theorem Executor.respects_true (executor : Executor) : executor.Respects fun _ _ => True where
  invoke _ _ _ := trivial
  assign _ _ _ _ := trivial

namespace WalkM

open CursorM

/-- The cursor goes ahead. -/
abbrev Forward {α : Type} (m : WalkM α) : Prop := Keeping (fun _ _ => True) m

theorem Forward.past {α : Type} {m : WalkM α} (hm : Forward m) {cursor : Cursor} {next later : Walk} {a : α}
    (h : m next = .ok a later) (hpast : cursor.Past next.cursor) : cursor.Past later.cursor := by
  have hahead := (hm.ok h).cursor
  exact ⟨Nat.lt_of_lt_of_le hpast.position hahead.position, hpast.terminated.ahead hahead⟩

theorem forward_reading {α : Type} {m : CursorM α} (h : Advances m) : Forward (ofCursor m) := keeping_reading h

theorem ofCursor_eq_ok {α : Type} {m : CursorM α} {walk later : Walk} {a : α} (h : ofCursor m walk = .ok a later) :
    m walk.cursor = .ok a later.cursor := by
  rw [ofCursor] at h
  cases hm : m walk.cursor with
  | ok b cursor =>
    rw [hm] at h
    cases h
    rfl
  | error failure cursor =>
    rw [hm] at h
    cases h

/-- The reader of expressions stops at a guarded cursor. -/
def StopsGuarded (inner : WalkM Expression) : Prop :=
  ∀ {walk later : Walk} {expression : Expression}, inner walk = .ok expression later → later.cursor.Guarded

variable {executor : Executor} {inner : WalkM Expression} {steps : Nat} {walk later : Walk}

theorem exists_of_valueOf {item : Item} (h : valueOf inner walk = .ok item later) :
    ∃ expression, inner walk = .ok expression later ∧ expression.calculate = .ok item := by
  obtain ⟨expression, next, hrun, h⟩ := bind_eq_ok.1 h
  rw [calculate] at h
  cases hvalue : expression.calculate with
  | ok value =>
    rw [hvalue] at h
    cases h
    exact ⟨expression, hrun, hvalue⟩
  | error error =>
    rw [hvalue] at h
    cases h

theorem guarded_valueOf (hinner : StopsGuarded inner) {item : Item} (h : valueOf inner walk = .ok item later) :
    later.cursor.Guarded := by
  obtain ⟨expression, hrun, -⟩ := exists_of_valueOf h
  exact hinner hrun

/-! ## Calls -/

theorem argumentList_succ (inner : WalkM Expression) (steps : Nat) : argumentList inner (steps + 1) = (do
    let item ← valueOf inner
    let kind ← currentKind
    if kind = .comma then do
      let _ ← advance
      return item :: (← argumentList inner steps)
    else if kind = .closing .round then do
      let _ ← advance
      return [item]
    else
      CursorM.unexpectedCurrent : WalkM (List Item)) := by
  rw [argumentList]
  congr
  funext item
  congr
  funext kind
  split
  · rfl
  · rfl
  · rename_i hcomma hclosing
    rw [if_neg hcomma, if_neg hclosing]

theorem guarded_argumentList (hforward : Forward inner) (hend : walk.cursor.Terminated) {items : List Item}
    (h : argumentList inner steps walk = .ok items later) : later.cursor.Guarded := by
  induction steps generalizing walk items with
  | zero => cases h
  | succ steps ih =>
    rw [argumentList_succ] at h
    obtain ⟨item, next, hvalue, h⟩ := bind_eq_ok.1 h
    have hnext := hend.ahead ((keeping_valueOf hforward).ok hvalue).cursor
    obtain ⟨kind, _, hcurrent, h⟩ := bind_eq_ok.1 h
    cases hcurrent
    split at h
    · obtain ⟨_, _, hadvance, h⟩ := bind_eq_ok.1 h
      cases hadvance
      obtain ⟨rest, _, hrest, h⟩ := bind_eq_ok.1 h
      cases h
      exact ih (hnext.ahead (ahead_advance _)) hrest
    · split at h
      · rename_i hclosing
        obtain ⟨_, _, hadvance, h⟩ := bind_eq_ok.1 h
        cases hadvance
        cases h
        exact guarded_advance hnext (Cursor.endsOperand_of_closing hclosing)
      · cases h

theorem guarded_arguments (hforward : Forward inner) (hend : walk.cursor.Terminated) {items : List Item}
    (h : arguments inner steps walk = .ok items later) : later.cursor.Guarded := by
  obtain ⟨_, next, hopening, h⟩ := bind_eq_ok.1 h
  have hnext := hend.ahead ((forward_reading (advances_expect _)).ok hopening).cursor
  obtain ⟨kind, _, hcurrent, h⟩ := bind_eq_ok.1 h
  cases hcurrent
  split at h
  · rename_i hclosing
    obtain ⟨_, _, hadvance, h⟩ := bind_eq_ok.1 h
    cases hadvance
    cases h
    exact guarded_advance hnext (Cursor.endsOperand_of_closing hclosing)
  · exact guarded_argumentList hforward hnext h

/-- The cursor stays in place. -/
def Still (walk later : Walk) : Prop := later.cursor = walk.cursor

instance lasting_still : Lasting Still where
  refl _ := rfl
  trans h h' := Eq.trans h' h

theorem still_ofContext {α : Type} (m : ContextM α) : Keeps Still (ofContext m) := by
  intro walk
  unfold ofContext
  cases m walk.context with
  | ok a context => rfl
  | error failure context => rfl

theorem still_hostCall (function : HostFunction) (items : List Item) (line : Nat) :
    Keeps Still (hostCall function items line) := by
  unfold hostCall
  split
  · exact Keeps.pure _
  · exact Keeps.pure _
  · exact Keeps.throw _

/-- A name and its arguments are a whole operand, if nothing else is read. -/
theorem completes_arguments (hforward : Forward inner) (hend : walk.cursor.Terminated)
    (hkind : walk.cursor.current.kind ≠ .eof) {items : List Item} {next : Walk}
    (h : arguments inner steps { walk with cursor := walk.cursor.advance } = .ok items next)
    (hstill : Still next later) : walk.cursor.Completes later.cursor := by
  have hpast := Cursor.past_advance hend hkind
  have hguarded := guarded_arguments hforward hpast.terminated h
  rw [hstill]
  exact ⟨(Forward.past (keeping_arguments hforward) h hpast).position, hguarded⟩

theorem completes_functionCall (hforward : Forward inner) (hend : walk.cursor.Terminated)
    (hkind : walk.cursor.current.kind ≠ .eof) {result : CallResult}
    (h : functionCall executor inner steps walk = .ok result later) : walk.cursor.Completes later.cursor := by
  obtain ⟨_, _, hline, h⟩ := bind_eq_ok.1 h
  cases hline
  obtain ⟨_, _, hadvance, h⟩ := bind_eq_ok.1 h
  cases hadvance
  obtain ⟨items, next, harguments, h⟩ := bind_eq_ok.1 h
  refine completes_arguments hforward hend hkind harguments (Keeps.ok ?_ h)
  refine Keeps.get.bind fun walk => ?_
  dsimp only
  split
  · exact still_hostCall _ _ _
  · split
    · exact still_ofContext _
    · exact Keeps.throw _

theorem completes_constructorCall (hforward : Forward inner) (hend : walk.cursor.Terminated)
    (hkind : walk.cursor.current.kind ≠ .eof) {item : Item}
    (h : constructorCall inner steps walk = .ok item later) : walk.cursor.Completes later.cursor := by
  obtain ⟨_, _, hline, h⟩ := bind_eq_ok.1 h
  cases hline
  obtain ⟨_, _, hadvance, h⟩ := bind_eq_ok.1 h
  cases hadvance
  obtain ⟨items, next, harguments, h⟩ := bind_eq_ok.1 h
  refine completes_arguments hforward hend hkind harguments (Keeps.ok ?_ h)
  refine Keeps.get.bind fun walk => ?_
  split
  · split
    · exact Keeps.pure _
    · exact Keeps.throw _
  · exact Keeps.throw _

theorem completes_callSite (hforward : Forward inner) (hend : walk.cursor.Terminated)
    (hkind : walk.cursor.current.kind ≠ .eof) {item : Item}
    (h : callSite executor inner steps walk = .ok item later) : walk.cursor.Completes later.cursor := by
  obtain ⟨token, _, hcurrent, h⟩ := bind_eq_ok.1 h
  cases hcurrent
  obtain ⟨_, _, hget, h⟩ := bind_eq_ok.1 h
  cases hget
  generalize (if walk.cursor.current.kind = .name then walk.context.nameKind walk.cursor.current.text
    else NameKind.undeclared) = nameKind at h
  cases nameKind with
  | function =>
    obtain ⟨result, _, hcall, h⟩ := bind_eq_ok.1 h
    cases h
    exact completes_functionCall hforward hend hkind hcall
  | constructor => exact completes_constructorCall hforward hend hkind h
  | value => cases h
  | undeclared => cases h

/-! ## Ternaries, assignments and names -/

theorem completes_ternary (hforward : Forward inner) (hinner : StopsGuarded inner) (hend : walk.cursor.Terminated)
    (hkind : walk.cursor.current.kind ≠ .eof) {item : Item} (h : ternary inner walk = .ok item later) :
    walk.cursor.Completes later.cursor := by
  obtain ⟨_, _, hline, h⟩ := bind_eq_ok.1 h
  cases hline
  obtain ⟨_, _, hkeyword, h⟩ := bind_eq_ok.1 h
  obtain ⟨-, -, hadvance⟩ := expectKeyword_eq_ok.1 (ofCursor_eq_ok hkeyword)
  have hpast := Cursor.past_advance hend hkind
  rw [← hadvance] at hpast
  obtain ⟨_, _, hopening, h⟩ := bind_eq_ok.1 h
  have hpast := (forward_reading (advances_expect _)).past hopening hpast
  obtain ⟨condition, _, hcondition, h⟩ := bind_eq_ok.1 h
  have hpast := Forward.past (keeping_valueOf hforward) hcondition hpast
  obtain ⟨_, _, hclosing, h⟩ := bind_eq_ok.1 h
  have hpast := (forward_reading (advances_expect _)).past hclosing hpast
  cases condition with
  | bool condition =>
    cases condition with
    | true =>
      obtain ⟨_, _, hvalue, h⟩ := bind_eq_ok.1 h
      have hpast := Forward.past (keeping_valueOf hforward) hvalue hpast
      obtain ⟨_, _, helse, h⟩ := bind_eq_ok.1 h
      have hpast := (forward_reading (advances_expectKeyword _)).past helse hpast
      obtain ⟨_, _, hskip, h⟩ := bind_eq_ok.1 h
      have hpast := (forward_reading advances_skipExpression).past hskip hpast
      cases h
      exact ⟨hpast.position, guarded_skipExpression (ofCursor_eq_ok hskip)⟩
    | false =>
      obtain ⟨_, _, hskip, h⟩ := bind_eq_ok.1 h
      have hpast := (forward_reading advances_skipExpression).past hskip hpast
      obtain ⟨_, _, helse, h⟩ := bind_eq_ok.1 h
      have hpast := (forward_reading (advances_expectKeyword _)).past helse hpast
      exact ⟨(Forward.past (keeping_valueOf hforward) h hpast).position, guarded_valueOf hinner h⟩
  | int | float | char | string | function | unit | object => cases h

theorem completes_assignment (hforward : Forward inner) (hinner : StopsGuarded inner)
    (hend : walk.cursor.Terminated) (hkind : walk.cursor.current.kind ≠ .eof) {item : Item}
    (h : assignment inner walk = .ok item later) : walk.cursor.Completes later.cursor := by
  obtain ⟨_, _, hline, h⟩ := bind_eq_ok.1 h
  cases hline
  obtain ⟨_, _, hadvance, h⟩ := bind_eq_ok.1 h
  cases hadvance
  have hpast := Cursor.past_advance hend hkind
  obtain ⟨_, next, hsign, h⟩ := bind_eq_ok.1 h
  have hpast := (forward_reading (advances_expect _)).past hsign hpast
  obtain ⟨_, _, hget, h⟩ := bind_eq_ok.1 h
  cases hget
  cases hfind : next.context.scopes.lookup? walk.cursor.current.text with
  | none =>
    rw [hfind] at h
    cases h
  | some binding =>
    rw [hfind] at h
    dsimp only at h
    split at h
    · obtain ⟨_, after, hvalue, h⟩ := bind_eq_ok.1 h
      obtain ⟨_, _, hassign, h⟩ := bind_eq_ok.1 h
      cases h
      have hstill : Still after later := (still_ofContext _).ok hassign
      rw [hstill]
      exact ⟨(Forward.past (keeping_valueOf hforward) hvalue hpast).position, guarded_valueOf hinner hvalue⟩
    · cases h

theorem completes_nameValue (hforward : Forward inner) (hinner : StopsGuarded inner)
    (hend : walk.cursor.Terminated) (hkind : walk.cursor.current.kind = .name) {item : Item}
    (h : nameValue inner walk = .ok item later) : walk.cursor.Completes later.cursor := by
  have heof : walk.cursor.current.kind ≠ .eof := by
    rw [hkind]
    exact TokenKind.noConfusion
  obtain ⟨_, _, hget, h⟩ := bind_eq_ok.1 h
  cases hget
  split at h
  · cases h
  · split at h
    · exact completes_assignment hforward hinner hend heof h
    · cases hfind : walk.context.scopes.lookup? walk.cursor.current.text with
      | none =>
        rw [hfind] at h
        cases h
      | some binding =>
        rw [hfind] at h
        cases h
        refine Cursor.completes_advance hend heof ?_
        rw [Cursor.endsOperand, hkind]
        rfl

theorem completes_thisValue (hend : walk.cursor.Terminated) (hkeyword : walk.cursor.current.kind = .keyword)
    {item : Item} (h : thisValue walk = .ok item later) : walk.cursor.Completes later.cursor := by
  obtain ⟨_, _, hget, h⟩ := bind_eq_ok.1 h
  cases hget
  cases hfind : walk.context.scopes.lookup? "this" with
  | none =>
    rw [hfind] at h
    cases h
  | some binding =>
    rw [hfind] at h
    cases h
    refine Cursor.completes_advance hend ?_ ?_
    · rw [hkeyword]
      exact TokenKind.noConfusion
    · rw [Cursor.endsOperand, Token.isKeyword, hkeyword]
      rfl

/-! ## Elements -/

/-- An element was read from one cursor to another: it starts an operand only if the token there does, and if it ends
one, then no other can start unnoticed. -/
structure ReadFrom (cursor : Cursor) (element : Element) (later : Cursor) : Prop where
  position : cursor.position < later.position
  starts : element.startsOperand = true → startsOperand cursor.current = true
  ends : element.endsOperand = true → later.Guarded

theorem readFrom_value {cursor later : Cursor} {item : Item} (hstart : startsOperand cursor.current = true)
    (h : cursor.Completes later) : ReadFrom cursor (.value item) later :=
  ⟨h.position, fun _ => hstart, fun _ => h.guarded⟩

theorem plainElement_literal {token : Token} (h : token.kind.isLiteral = true) :
    plainElement token = match Item.ofLiteral token with
      | .ok item => pure (.value item)
      | .error kind => failHere kind := by
  unfold plainElement
  split
  · rename_i hkind
    rw [hkind] at h
    cases h
  · rename_i hkind
    rw [hkind] at h
    cases h
  · rename_i hkind
    rw [hkind] at h
    cases h
  · exact if_pos h

/-- Parentheses, operators and literals are read from tokens that start and end operands as they do. -/
theorem plainElement_spec {token : Token} {element : Element} (h : plainElement token walk = .ok element later) :
    later = walk ∧ (element.startsOperand = true → startsOperand token = true) ∧
      (element.endsOperand = true → Cursor.endsOperand token = true) := by
  obtain ⟨kind, text, span⟩ := token
  cases kind with
  | opening shape =>
    cases shape with
    | round =>
      cases h
      exact ⟨rfl, fun _ => rfl, fun hends => (by cases hends)⟩
    | square | curly => cases h
  | closing shape =>
    cases shape with
    | round =>
      cases h
      exact ⟨rfl, fun hstarts => (by cases hstarts), fun _ => rfl⟩
    | square | curly => cases h
  | operator =>
    rw [plainElement] at h
    cases hop : Operator.ofSymbol? text with
    | none =>
      rw [hop] at h
      cases h
    | some op =>
      rw [hop] at h
      cases h
      refine ⟨rfl, fun hunary => ?_, fun hends => (by cases hends)⟩
      have hsymbol : op.symbol = text := by simpa using List.find?_some hop
      rw [startsOperand_operator rfl hsymbol.symm]
      exact hunary
  | int | float | string | char | bool =>
    rw [plainElement_literal rfl] at h
    cases hitem : Item.ofLiteral _ with
    | ok item =>
      rw [hitem] at h
      cases h
      exact ⟨rfl, fun _ => rfl, fun _ => rfl⟩
    | error kind =>
      rw [hitem] at h
      cases h
  | name | keyword | assignment | comma | dot | colon | arrow | semicolon | newline | eof => cases h

theorem readFrom_element (hforward : Forward inner) (hinner : StopsGuarded inner) (hend : walk.cursor.Terminated)
    (hkind : walk.cursor.current.kind ≠ .eof) {element : Element}
    (h : WalkM.element executor inner steps walk = .ok element later) :
    ReadFrom walk.cursor element later.cursor := by
  obtain ⟨_, _, hget, h⟩ := bind_eq_ok.1 h
  cases hget
  split at h
  · rename_i hcall
    obtain ⟨item, _, hrun, h⟩ := bind_eq_ok.1 h
    cases h
    rw [Bool.and_eq_true] at hcall
    exact readFrom_value (startsOperand_of_isObject hcall.1) (completes_callSite hforward hend hkind hrun)
  split at h
  · cases h
  split at h
  · cases h
  split at h
  · rename_i hif
    obtain ⟨item, _, hrun, h⟩ := bind_eq_ok.1 h
    cases h
    exact readFrom_value (startsOperand_of_keyword (kind_of_isKeywordOf hif))
      (completes_ternary hforward hinner hend hkind hrun)
  split at h
  · rename_i hlambda
    obtain ⟨function, _, hrun, h⟩ := bind_eq_ok.1 h
    cases h
    exact readFrom_value (startsOperand_of_keyword (kind_of_isKeywordOf hlambda))
      (completes_lambda hend hkind (ofCursor_eq_ok hrun))
  split at h
  · cases h
  split at h
  · rename_i hname
    obtain ⟨item, _, hrun, h⟩ := bind_eq_ok.1 h
    cases h
    refine readFrom_value ?_ (completes_nameValue hforward hinner hend hname hrun)
    exact startsOperand_of_isObject (by rw [hname]; rfl)
  split at h
  · rename_i hthis
    obtain ⟨item, _, hrun, h⟩ := bind_eq_ok.1 h
    cases h
    have hkeyword := kind_of_isKeywordOf hthis
    exact readFrom_value (startsOperand_of_keyword hkeyword) (completes_thisValue hend hkeyword hrun)
  · obtain ⟨plain, next, hrun, hrest⟩ := bind_eq_ok.1 h
    obtain ⟨hsame, hstarts, hends⟩ := plainElement_spec hrun
    rw [hsame] at hrest
    obtain ⟨_, _, hadvance, hresult⟩ := bind_eq_ok.1 hrest
    cases hadvance
    cases hresult
    exact ⟨position_lt_advance hend hkind, hstarts, fun he => guarded_advance hend (hends he)⟩

/-! ## Expressions -/

theorem guarded_elements {first : Nat} {waiting : List TokenKind} {read : List Element}
    (h : elements executor steps first waiting walk = .ok read later) : later.cursor.Guarded := by
  induction steps generalizing waiting walk read with
  | zero => cases h
  | succ steps ih =>
    obtain ⟨_, _, hget, h⟩ := bind_eq_ok.1 h
    cases hget
    cases hboundary : walk.cursor.boundary first waiting.isEmpty with
    | ends =>
      rw [hboundary] at h
      cases h
      exact guarded_of_ends hboundary
    | clash =>
      rw [hboundary] at h
      cases h
    | inside =>
      rw [hboundary] at h
      obtain ⟨_, _, _, h⟩ := bind_eq_ok.1 h
      obtain ⟨_, _, hrest, h⟩ := bind_eq_ok.1 h
      cases h
      exact ih hrest

theorem stopsGuarded_expressionBy : StopsGuarded (expressionBy (elements executor steps · [])) := by
  intro walk later expression h
  obtain ⟨_, _, _, h⟩ := bind_eq_ok.1 h
  obtain ⟨_, _, _, h⟩ := bind_eq_ok.1 h
  obtain ⟨_, _, hread, h⟩ := bind_eq_ok.1 h
  cases h
  exact guarded_elements hread

theorem forward_expressionBy : Forward (expressionBy (elements executor steps · [])) :=
  keeping_expressionBy fun first => keeping_elements executor.respects_true first []

/-- The elements of an expression are spaced; behind the first of them, no operand begins at a guarded cursor. -/
theorem spaced_elements {first : Nat} {waiting : List TokenKind} {read : List Element}
    (hend : walk.cursor.Terminated) (hfirst : first ≤ walk.cursor.position)
    (h : elements executor steps first waiting walk = .ok read later) :
    Element.Spaced read ∧
      (walk.cursor.Guarded → walk.cursor.position ≠ first → Element.opens read = false) := by
  induction steps generalizing waiting walk read with
  | zero => cases h
  | succ steps ih =>
    obtain ⟨_, _, hget, h⟩ := bind_eq_ok.1 h
    cases hget
    cases hboundary : walk.cursor.boundary first waiting.isEmpty with
    | ends =>
      rw [hboundary] at h
      cases h
      exact ⟨.nil, fun _ _ => rfl⟩
    | clash =>
      rw [hboundary] at h
      cases h
    | inside =>
      rw [hboundary] at h
      obtain ⟨element, next, helement, h⟩ := bind_eq_ok.1 h
      obtain ⟨rest, _, hrest, h⟩ := bind_eq_ok.1 h
      cases h
      have hkind : walk.cursor.current.kind ≠ .eof := fun hkind => by
        rw [Cursor.boundary, if_pos hkind] at hboundary
        cases hboundary
      have hread := readFrom_element forward_expressionBy stopsGuarded_expressionBy hend hkind helement
      have hnext : next.cursor.Terminated :=
        hend.ahead ((keeping_element executor.respects_true forward_expressionBy).ok helement).cursor
      have hposition := hread.position
      obtain ⟨hspaced, hopens⟩ := ih hnext (by omega) hrest
      refine ⟨hspaced.cons fun hends => hopens (hread.ends hends) (by omega), fun hguarded hne => ?_⟩
      cases hstarts : element.startsOperand with
      | false => exact hstarts
      | true => exact absurd hboundary (Cursor.boundary_ne_inside hguarded hne (hread.starts hstarts))

theorem spaced_expression (hend : walk.cursor.Terminated) {expression : Expression}
    (h : WalkM.expression executor walk = .ok expression later) : Element.Spaced expression.elements := by
  obtain ⟨_, _, hget, h⟩ := bind_eq_ok.1 h
  cases hget
  obtain ⟨_, next, hskip, h⟩ := bind_eq_ok.1 h
  have hnext := hend.ahead ((forward_reading advances_skipLineBreaks).ok hskip).cursor
  obtain ⟨_, _, hget, h⟩ := bind_eq_ok.1 h
  cases hget
  obtain ⟨_, _, hread, h⟩ := bind_eq_ok.1 h
  cases h
  exact (spaced_elements hnext (Nat.le_refl _) hread).1

end WalkM

/-- Nothing malformed is evaluated. In an expression that is read, no operand stands right behind another; elements
of which that is true have a value only if they are written as a tree, which is then the only one and has that
value; so a value that is read is that of a tree. -/
theorem value_of_tree (executor : Executor) (cursor : Cursor) (context : Context) (hend : cursor.Terminated) :
    (∀ expression later, WalkM.expression executor ⟨cursor, context⟩ = .ok expression later →
      Element.Spaced expression.elements) ∧
    (∀ elements line item, Element.Spaced elements → Expression.calculate ⟨elements, line⟩ = .ok item →
      ∃ t : OperatorTree, (t.Grouped ∧ t.written = elements ∧ t.eval = .ok item) ∧
        ∀ other : OperatorTree, other.Grouped → other.written = elements → other = t) ∧
    (∀ item later, WalkM.evaluation executor ⟨cursor, context⟩ = .ok item later →
      ∃ (t : OperatorTree) (line : Nat), t.Grouped ∧ t.eval = .ok item ∧
        WalkM.expression executor ⟨cursor, context⟩ = .ok ⟨t.written, line⟩ later) := by
  have htree : ∀ (elements : List Element) (line : Nat) (item : Item), Element.Spaced elements →
      Expression.calculate ⟨elements, line⟩ = .ok item → ∃ t : OperatorTree,
        (t.Grouped ∧ t.written = elements ∧ t.eval = .ok item) ∧
          ∀ other : OperatorTree, other.Grouped → other.written = elements → other = t :=
    fun elements line item hspaced h => OperatorTree.exists_tree_of_value hspaced (Expression.value_of_calculate h)
  refine ⟨fun expression later => WalkM.spaced_expression hend, htree, fun item later h => ?_⟩
  obtain ⟨expression, hread, hvalue⟩ := WalkM.exists_of_valueOf h
  obtain ⟨t, ⟨hgrouped, hwritten, heval⟩, -⟩ := htree _ _ _ (WalkM.spaced_expression hend hread) hvalue
  refine ⟨t, expression.line, hgrouped, heval, ?_⟩
  rw [hwritten]
  exact hread

/-- The tokens `! ( if ( true ) false else true )`. -/
def negatedTernary : Cursor where
  before := []
  current := ⟨.operator, "!", .null⟩
  rest := [⟨.opening .round, "(", .null⟩, ⟨.keyword, "if", .null⟩, ⟨.opening .round, "(", .null⟩,
    ⟨.bool, "true", .null⟩, ⟨.closing .round, ")", .null⟩, ⟨.bool, "false", .null⟩, ⟨.keyword, "else", .null⟩,
    ⟨.bool, "true", .null⟩, ⟨.closing .round, ")", .null⟩, Token.eof]

/-- The ternary becomes a value in parentheses. -/
theorem value_of_tree_negatedTernary :
    negatedTernary.Terminated ∧
      Element.Spaced [.operator .not, .openParen, .value (.bool false), .closeParen] ∧
      (∃ t : OperatorTree, t.Grouped ∧ t.written = [.operator .not, .openParen, .value (.bool false), .closeParen] ∧
        t.eval = .ok (.bool true)) ∧
      ∃ (t : OperatorTree) (line : Nat) (later : Walk), t.Grouped ∧ t.eval = .ok (.bool true) ∧
        WalkM.expression (Executor.block 1) ⟨negatedTernary, default⟩ = .ok ⟨t.written, line⟩ later := by
  have hend : negatedTernary.Terminated := by decide
  obtain ⟨hspaced, htree, hvalue⟩ := value_of_tree (Executor.block 1) negatedTernary default hend
  have hread : Element.Spaced [.operator .not, .openParen, .value (.bool false), .closeParen] :=
    hspaced ⟨_, 0⟩ _ rfl
  obtain ⟨t, ht, -⟩ := htree _ 0 (.bool true) hread rfl
  have hrun : ∃ later, WalkM.evaluation (Executor.block 1) ⟨negatedTernary, default⟩ = .ok (.bool true) later :=
    ⟨_, rfl⟩
  obtain ⟨later, hrun⟩ := hrun
  obtain ⟨t', line, ht'⟩ := hvalue _ _ hrun
  exact ⟨hend, hread, ⟨t, ht⟩, t', line, later, ht'⟩

/-- The stack machine alone gives `true false ^` a value. -/
example : Expression.value [.value (.bool true), .value (.bool false), .operator .xor] = .ok (.bool true) := by
  cbv

end GradualScript
