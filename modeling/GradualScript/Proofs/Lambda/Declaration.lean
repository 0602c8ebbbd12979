import GradualScript.Proofs.Expression.Shelter
import GradualScript.Proofs.Lambda.Grammar
import GradualScript.Proofs.Line.Reading
import GradualScript.Proofs.Tandem.Cursor
import GradualScript.Proofs.Value.Narrowing
import GradualScript.Walk.Basic

/-!
# Declarations of lambdas

* `TypeSet.contains_ofNames`, `TypeSet.isAny_ofNames` : the set of the types with some names;
* `Spans.eq_append`, `Ahead.exists_spans` : the tokens between two places;
* `Cursor.Blocks` : a body in braces, as it stands at a cursor (`body_of_blocks`, `blocks_of_body`);
* `Cursor.Declares` : a lambda with its head and its body, as it stands from a cursor on;
* `declares_of_lambda`, `lambda_of_declares`, `unexpected_of_lambda` : lambdas that are read are declared, those that
  are declared are read, and otherwise a token is out of place;
* `lambda_iff_declares` : a lambda is read exactly where one is declared.
-/

set_option autoImplicit false

namespace GradualScript

/-! ## Sets of types -/

theorem TypeTag.ofName?_eq_none {name : String} : ofName? name = none ↔ name = "Any" := by
  unfold ofName?
  split
  · simp_all
  · repeat' split
    all_goals simp_all

namespace TypeSet

theorem ofNames_eq_run (names : List String) :
    ofNames names = any.run (names.map fun name => .declare (.ofName name)) := by
  rw [ofNames, run, List.foldl_map]
  rfl

theorem adds_names {names : List String} {tag : TypeTag} :
    Adds (names.map fun name => .declare (.ofName name)) tag ↔ ∃ name ∈ names, TypeTag.ofName? name = some tag := by
  have hexact : ∀ name, DeclaredType.ofName name = .exact tag ↔ TypeTag.ofName? name = some tag := by
    intro name
    unfold DeclaredType.ofName
    cases TypeTag.ofName? name <;> simp
  simp [Adds, hexact]

/-- The set of some names holds the types they name. -/
theorem contains_ofNames {tag : TypeTag} (names : List String) :
    (ofNames names).contains tag = true ↔ ∃ name ∈ names, TypeTag.ofName? name = some tag := by
  rw [ofNames_eq_run, (setOf_run _).contains_iff, adds_names]

/-- The set of some names is open if `Any` is the only one among them. -/
theorem isAny_ofNames (names : List String) : (ofNames names).isAny = true ↔ ∀ name ∈ names, name = "Any" := by
  rw [ofNames_eq_run, (setOf_run _).isAny_iff]
  simp only [adds_names, ← TypeTag.ofName?_eq_none, Option.eq_none_iff_forall_ne_some]
  constructor
  · intro hnone name hname tag htag
    exact hnone tag ⟨name, hname, htag⟩
  · rintro hnone tag ⟨name, hname, htag⟩
    exact hnone name hname tag htag

end TypeSet

/-! ## Between two places -/

/-- Tokens up to the end of input start with line breaks and another token. -/
theorem Token.exists_breaks {tokens : List Token} (h : Terminated tokens) :
    ∃ breaks next following, tokens = breaks ++ next :: following ∧ (∀ token ∈ breaks, token.kind = .newline) ∧
      next.kind ≠ .newline := by
  induction tokens with
  | nil => cases h
  | cons token rest ih =>
    by_cases hnewline : token.kind = .newline
    · have hrest : Terminated rest := by
        cases rest with
        | nil => simp [Terminated, hnewline] at h
        | cons next rest => simpa [Terminated] using h
      obtain ⟨breaks, next, following, rfl, hbreaks, hnext⟩ := ih hrest
      exact ⟨token :: breaks, next, following, rfl, List.forall_mem_cons.2 ⟨hnewline, hbreaks⟩, hnext⟩
    · exact ⟨[], token, rest, rfl, by simp, hnewline⟩

namespace Cursor

variable {cursor later : Cursor} {passed : List Token}

theorem Spans.eq_append (h : cursor.Spans passed later) :
    cursor.current :: cursor.rest = passed ++ later.current :: later.rest := by
  have htokens := h.ahead.tokens
  rw [tokens, tokens, h.before, List.reverse_append, List.reverse_reverse, List.append_assoc] at htokens
  exact (List.append_cancel_left htokens).symm

theorem Spans.position (h : cursor.Spans passed later) : later.position = cursor.position + passed.length := by
  rw [Cursor.position, h.before, List.length_append, List.length_reverse, Nat.add_comm]
  rfl

theorem Terminated.of_append {more : List Token} (h : cursor.Terminated) (htokens : cursor.tokens = passed ++ more)
    (hne : more ≠ []) : Token.Terminated more := by
  unfold Cursor.Terminated at h
  unfold Token.Terminated
  rw [htokens, List.getLast?_append, List.getLast?_eq_some_getLast hne, Option.some_or] at h
  rw [List.getLast?_eq_some_getLast hne]
  exact h

theorem Ahead.exists_spans (h : cursor.Ahead later) : ∃ passed, cursor.Spans passed later := by
  have htokens := h.tokens
  have hposition := h.position
  unfold Cursor.tokens at htokens
  unfold Cursor.position at hposition
  rcases List.append_eq_append_iff.1 htokens with ⟨more, hmore, -⟩ | ⟨more, hmore, -⟩
  · have hlength := congrArg List.length hmore
    simp only [List.length_reverse, List.length_append] at hlength
    obtain rfl : more = [] := List.eq_nil_of_length_eq_zero (by omega)
    refine ⟨[], h, ?_⟩
    rw [List.append_nil, List.reverse_inj] at hmore
    exact hmore.symm
  · refine ⟨more, h, ?_⟩
    rw [← List.reverse_inj, hmore]
    simp

/-- The cursor is on the brace that opens a body, and `later` on the first token behind the brace that closes it which
is no line break. -/
inductive Blocks (cursor : Cursor) : List Token → Cursor → Prop where
  | mk {body breaks following : List Token} {close next : Token} : cursor.current.kind = .opening .curly →
      Token.Balanced .curly body → close.kind = .closing .curly → (∀ token ∈ breaks, token.kind = .newline) →
      next.kind ≠ .newline → cursor.rest = body ++ close :: (breaks ++ next :: following) →
      Blocks cursor (body ++ [Token.eof])
        ⟨(cursor.current :: (body ++ close :: breaks)).reverse ++ cursor.before, next, following⟩

/-- From the cursor on there are the head of a lambda and its body; `later` is behind it. -/
inductive Declares (cursor : Cursor) : Function → Cursor → Prop where
  | mk {head body breaks following : List Token} {brace close next : Token} {parameters : List Parameter}
      {names : List String} :
      cursor.current :: cursor.rest = head ++ brace :: (body ++ close :: (breaks ++ next :: following)) →
      HeadsLambda (Token.plain head) parameters names → brace.kind = .opening .curly →
      Token.Balanced .curly body → close.kind = .closing .curly → (∀ token ∈ breaks, token.kind = .newline) →
      next.kind ≠ .newline →
      Declares cursor
        ⟨parameters, body ++ [Token.eof], .ofNames names, Token.lineOf cursor.tokens (cursor.position + head.length),
          none⟩
        ⟨(head ++ brace :: (body ++ close :: breaks)).reverse ++ cursor.before, next, following⟩

end Cursor

namespace CursorM

open Cursor (onto onto_cons onto_newlines)

variable {cursor later : Cursor} {tokens : List Token} {function : Function} {failure : Failure}

theorem body_of_blocks (h : cursor.Blocks tokens later) : body cursor = .ok tokens later := by
  obtain ⟨hopening, hbalanced, hclose, hbreaks, hnext, hrest⟩ := h
  rename_i inner breaks following close next
  obtain ⟨before, brace, rest⟩ := cursor
  dsimp only at hopening hrest ⊢
  have hrun : body (onto before (brace :: (inner ++ close :: (breaks ++ next :: following)))) = _ :=
    body_onto hopening hbalanced hclose (by simp)
  rw [onto_newlines hbreaks hnext, onto_cons (by simp [hopening]), ← hrest] at hrun
  rw [hrun]
  simp

theorem blocks_of_body (hend : cursor.Terminated) (h : body cursor = .ok tokens later) :
    cursor.Blocks tokens later := by
  obtain ⟨inner, hopening, hinner, rfl⟩ := exists_of_body h
  obtain ⟨close, more, hrest, hclose, -⟩ := Token.curlyBody?_eq_some hinner
  have hmore : Token.Terminated more := by
    have hall : Token.Terminated (close :: more) := by
      refine hend.of_append (?_ : _ = (cursor.before.reverse ++ cursor.current :: inner) ++ _) (by simp)
      simp [Cursor.tokens, hrest]
    cases more with
    | nil => simp [Token.Terminated, hclose] at hall
    | cons next more => simpa [Token.Terminated] using hall
  obtain ⟨breaks, next, following, rfl, hbreaks, hnext⟩ := Token.exists_breaks hmore
  have hblocks := Cursor.Blocks.mk hopening (Token.depthBehind?_of_curlyBody? hinner) hclose hbreaks hnext hrest
  -- The braces tell the body and so where it ends.
  have hsame := (body_of_blocks hblocks).symm.trans h
  cases hsame
  exact hblocks

theorem unexpected_of_body (h : body cursor = .error failure later) :
    failure = .error ⟨.unexpectedToken later.current.text, later.line⟩ := by
  change (if cursor.current.kind = .opening .curly then _ else unexpectedCurrent : CursorM _) cursor = _ at h
  split at h
  · cases hbody : Token.curlyBody? 0 cursor.rest with
    | some tokens =>
      rw [hbody] at h
      cases h
    | none =>
      rw [hbody] at h
      cases h
      rfl
  · cases h
    rfl

/-! ## Heads and bodies -/

theorem lambda_eq_ok : lambda cursor = .ok function later ↔ ∃ read place tokens, lambdaHead cursor = .ok read place ∧
    body place = .ok tokens later ∧ function = ⟨read.1, tokens, read.2, place.line, none⟩ := by
  rw [lambda_eq, bind_eq_ok]
  constructor
  · rintro ⟨read, place, hhead, h⟩
    obtain ⟨tokens, after, hbody, h⟩ := bind_eq_ok.1 ((bind_get place).symm.trans h)
    cases h
    exact ⟨read, place, tokens, hhead, hbody, rfl⟩
  · rintro ⟨read, place, tokens, hhead, hbody, rfl⟩
    refine ⟨read, place, hhead, ?_⟩
    exact (bind_get place).trans (bind_of_ok hbody)

/-- A cursor on a keyword fronts the tokens that come. -/
theorem fronts_of_keyword {word : String} (h : cursor.current.isKeywordOf word = true) :
    cursor.Fronts (Token.plain (cursor.current :: cursor.rest)) :=
  ⟨rfl, by simp [Cursor.kind_of_isKeywordOf h]⟩

/-- A lambda that has been read is declared at the cursor. -/
theorem declares_of_lambda (hend : cursor.Terminated) (hkeyword : cursor.current.isKeywordOf "lambda" = true)
    (h : lambda cursor = .ok function later) : cursor.Declares function later := by
  obtain ⟨read, place, tokens, hhead, hbody, rfl⟩ := lambda_eq_ok.1 h
  have hahead := advances_lambdaHead.ok hhead
  obtain ⟨head, hspans⟩ := hahead.exists_spans
  have htakes := takes_lambdaHead ⟨fronts_of_keyword hkeyword, hend⟩
  rw [hhead] at htakes
  obtain ⟨spelling, rest, htokens, ⟨names, hnames, htypes⟩, hfaces⟩ := htakes.success
  -- The spelling is what has been passed, less its line breaks.
  have hspelling : spelling = Token.plain head := by
    rw [hspans.eq_append, Token.plain_append, hfaces.plain] at htokens
    exact (List.append_cancel_right htokens).symm
  subst hspelling
  have hline : place.line = Token.lineOf cursor.tokens (cursor.position + head.length) := by
    rw [place.line_eq_lineOf, hahead.tokens, hspans.position]
  rw [htypes, hline]
  obtain ⟨hopening, hbalanced, hclose, hbreaks, hnext, hrest⟩ := blocks_of_body (hend.ahead hahead) hbody
  rename_i inner breaks following close next
  have hdeclares := Cursor.Declares.mk (hrest ▸ hspans.eq_append) hnames hopening hbalanced hclose hbreaks hnext
  have hbefore : (head ++ place.current :: (inner ++ close :: breaks)).reverse ++ cursor.before =
      (place.current :: (inner ++ close :: breaks)).reverse ++ place.before := by
    rw [hspans.before, List.reverse_append, List.append_assoc]
  rw [hbefore] at hdeclares
  exact hdeclares

/-- A lambda that is declared at the cursor is read. -/
theorem lambda_of_declares (hkeyword : cursor.current.isKeywordOf "lambda" = true)
    (h : cursor.Declares function later) : lambda cursor = .ok function later := by
  obtain ⟨htokens, hnames, hbrace, hbalanced, hclose, hbreaks, hnext⟩ := h
  rename_i head inner breaks following brace close next parameters names
  have hplain : Token.plain (brace :: (inner ++ close :: (breaks ++ next :: following))) = brace :: Token.plain _ :=
    Token.plain_cons (by simp [hbrace]) _
  have hfronts := fronts_of_keyword hkeyword
  rw [htokens, Token.plain_append, hplain] at hfronts
  obtain ⟨place, hhead, hplace⟩ := gives_lambdaHead hnames (by simp [hbrace]) hfronts
  have hahead := advances_lambdaHead.ok hhead
  -- The head leads to the brace, for there the same tokens come, up to line breaks.
  let middle : Cursor := ⟨head.reverse ++ cursor.before, brace, inner ++ close :: (breaks ++ next :: following)⟩
  have hmiddle : middle.Fronts (brace :: Token.plain _) := ⟨hplain, by simp [middle, hbrace]⟩
  obtain rfl : place = middle := hmiddle.eq hplace (hahead.tokens.trans (by simp [middle, Cursor.tokens, htokens]))
  have hblocks : middle.Blocks (inner ++ [Token.eof]) _ := .mk hbrace hbalanced hclose hbreaks hnext rfl
  have hposition : middle.position = cursor.position + head.length := by
    simp [middle, Cursor.position, Nat.add_comm]
  refine lambda_eq_ok.2 ⟨_, middle, inner ++ [Token.eof], hhead, ?_, ?_⟩
  · rw [body_of_blocks hblocks, List.reverse_append, List.append_assoc]
  · rw [middle.line_eq_lineOf, hahead.tokens, hposition]

/-- Where a lambda cannot be read, the token at which the reading stops is out of place. -/
theorem unexpected_of_lambda (hend : cursor.Terminated) (hkeyword : cursor.current.isKeywordOf "lambda" = true)
    (h : lambda cursor = .error failure later) :
    failure = .error ⟨.unexpectedToken later.current.text, later.line⟩ := by
  rw [lambda_eq] at h
  have htakes := takes_lambdaHead ⟨fronts_of_keyword hkeyword, hend⟩
  cases hhead : lambdaHead cursor with
  | error failure' place =>
    rw [bind_of_error hhead] at h
    rw [hhead] at htakes
    cases h
    exact htakes.failure
  | ok read place =>
    rw [bind_of_ok hhead] at h
    have h := (bind_get place).symm.trans h
    cases hbody : body place with
    | error failure' after =>
      rw [bind_of_error hbody] at h
      cases h
      exact unexpected_of_body hbody
    | ok tokens after =>
      rw [bind_of_ok hbody] at h
      cases h

end CursorM

/-! ## Lambdas -/

/-- A lambda is read exactly where its grammar has one: then it is the function that is written there, with the set of
the types that are named, and otherwise a token is out of place. The context is left alone. -/
theorem lambda_iff_declares {walk : Walk} (hend : walk.cursor.Terminated)
    (hkeyword : walk.cursor.current.isKeywordOf "lambda" = true) :
    (∀ function after, WalkM.ofCursor CursorM.lambda walk = .ok function after ↔
      walk.cursor.Declares function after.cursor ∧ after.context = walk.context) ∧
    (∀ failure after, WalkM.ofCursor CursorM.lambda walk = .error failure after →
      failure = .error ⟨.unexpectedToken after.cursor.current.text, after.cursor.line⟩ ∧
        after.context = walk.context) ∧
    ∀ names, ((TypeSet.ofNames names).isAny = true ↔ ∀ name ∈ names, name = "Any") ∧
      ∀ tag, (TypeSet.ofNames names).contains tag = true ↔ ∃ name ∈ names, TypeTag.ofName? name = some tag := by
  refine ⟨fun function after => ⟨fun h => ?_, fun ⟨hdeclares, hcontext⟩ => ?_⟩, fun failure after h => ?_,
    fun names => ⟨TypeSet.isAny_ofNames names, fun tag => TypeSet.contains_ofNames names⟩⟩
  · unfold WalkM.ofCursor at h
    split at h
    · rename_i function later hrun
      cases h
      exact ⟨CursorM.declares_of_lambda hend hkeyword hrun, rfl⟩
    · cases h
  · unfold WalkM.ofCursor
    rw [CursorM.lambda_of_declares hkeyword hdeclares, ← hcontext]
  · unfold WalkM.ofCursor at h
    split at h
    · cases h
    · rename_i failure later hrun
      cases h
      exact ⟨CursorM.unexpected_of_lambda hend hkeyword hrun, rfl⟩

/-- The tokens of `lambda (a: Int, b,) -> (Int, Any) { lambda () { } } ;`, on the fourth line, with line breaks inside
the head, before the body and behind it. -/
def spreadDeclaration : Cursor where
  before := [⟨.newline, "\n", .null⟩, ⟨.newline, "\n", .null⟩, ⟨.newline, "\n", .null⟩]
  current := ⟨.keyword, "lambda", .null⟩
  rest := [⟨.opening .round, "(", .null⟩, ⟨.name, "a", .null⟩, ⟨.colon, ":", .null⟩, ⟨.name, "Int", .null⟩,
    ⟨.comma, ",", .null⟩, ⟨.newline, "\n", .null⟩, ⟨.name, "b", .null⟩, ⟨.comma, ",", .null⟩,
    ⟨.closing .round, ")", .null⟩, ⟨.arrow, "->", .null⟩, ⟨.opening .round, "(", .null⟩, ⟨.name, "Int", .null⟩,
    ⟨.comma, ",", .null⟩, ⟨.name, "Any", .null⟩, ⟨.closing .round, ")", .null⟩, ⟨.newline, "\n", .null⟩,
    ⟨.opening .curly, "\x7b", .null⟩, ⟨.keyword, "lambda", .null⟩, ⟨.opening .round, "(", .null⟩,
    ⟨.closing .round, ")", .null⟩, ⟨.opening .curly, "\x7b", .null⟩, ⟨.closing .curly, "\x7d", .null⟩,
    ⟨.closing .curly, "\x7d", .null⟩, ⟨.newline, "\n", .null⟩, ⟨.semicolon, ";", .null⟩, Token.eof]

theorem lambda_iff_declares_spread :
    spreadDeclaration.Terminated ∧ spreadDeclaration.current.isKeywordOf "lambda" = true ∧
      ∃ function after, WalkM.ofCursor CursorM.lambda ⟨spreadDeclaration, default⟩ = .ok function after ∧
        function.parameters = [⟨"a", .exact .int⟩, ⟨"b", .any⟩] ∧ function.returnTypes = .closed [.int] ∧
        function.startLine = 5 ∧ after.cursor.current.kind = .semicolon ∧
        spreadDeclaration.Declares function after.cursor ∧ after.context = default := by
  have hend : spreadDeclaration.Terminated := by decide
  have hkeyword : spreadDeclaration.current.isKeywordOf "lambda" = true := by decide
  have hrun : ∃ function after, WalkM.ofCursor CursorM.lambda ⟨spreadDeclaration, default⟩ = .ok function after ∧
      function.parameters = [⟨"a", .exact .int⟩, ⟨"b", .any⟩] ∧ function.returnTypes = .closed [.int] ∧
      function.startLine = 5 ∧ after.cursor.current.kind = .semicolon :=
    ⟨_, _, rfl, by decide, by decide, rfl, rfl⟩
  obtain ⟨function, after, hrun, hparameters, htypes, hline, hkind⟩ := hrun
  have hdeclares := ((@lambda_iff_declares ⟨spreadDeclaration, default⟩ hend hkeyword).1 function after).1 hrun
  exact ⟨hend, hkeyword, function, after, hrun, hparameters, htypes, hline, hkind, hdeclares⟩

end GradualScript
