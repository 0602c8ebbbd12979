import GradualScript.Proofs.Cursor.Operand

/-!
# Cursors on given tokens

* `Cursor.onto` : the cursor on the first of some tokens that is no line break, with others before it;
* `advance_onto` : reading a token, in these terms;
* `Cursor.Entering` : an operand may start at the cursor;
* `Cursor.Clear`, `Cursor.Stops` : tokens that leave a name before them alone, and tokens that end an expression;
* `boundary_entering`, `boundary_onto_of_stops`, … : what an expression does at the cursor.
-/

set_option autoImplicit false

namespace GradualScript.Cursor

/-- The cursor on the first of the tokens that is no line break. -/
def onto (before : List Token) : List Token → Cursor
  | [] => ⟨before, Token.eof, []⟩
  | token :: rest => skipFrom (· = .newline) before token rest

variable {before rest following : List Token} {token next : Token} {first : Nat}

/-! ## Moves -/

theorem onto_cons (h : token.kind ≠ .newline) : onto before (token :: rest) = ⟨before, token, rest⟩ := by
  cases rest with
  | nil => rfl
  | cons next rest =>
    rw [onto, skipFrom]
    exact if_neg (by simpa using h)

theorem onto_newline (h : token.kind = .newline) (hne : rest ≠ []) :
    onto before (token :: rest) = onto (token :: before) rest := by
  cases rest with
  | nil => exact absurd rfl hne
  | cons next rest =>
    rw [onto, skipFrom]
    exact if_pos (by simpa using h)

theorem onto_newlines {breaks : List Token} (hbreaks : ∀ token ∈ breaks, token.kind = .newline)
    (htoken : token.kind ≠ .newline) :
    onto before (breaks ++ token :: rest) = ⟨breaks.reverse ++ before, token, rest⟩ := by
  induction breaks generalizing before with
  | nil => exact onto_cons htoken
  | cons first breaks ih =>
    rw [List.cons_append, onto_newline (hbreaks first (by simp)) (by simp),
      ih fun token hmem => hbreaks token (List.mem_cons_of_mem _ hmem), List.reverse_cons, List.append_assoc]
    rfl

theorem current_onto (h : token.kind ≠ .newline) : (onto before (token :: rest)).current = token := by
  rw [onto_cons h]

theorem tokens_onto (before : List Token) (hne : rest ≠ []) : (onto before rest).tokens = before.reverse ++ rest := by
  cases rest with
  | nil => exact absurd rfl hne
  | cons token rest => exact tokens_skipFrom _ before token rest

theorem advance_onto (hnewline : token.kind ≠ .newline) (heof : token.kind ≠ .eof) (hne : rest ≠ []) :
    (onto before (token :: rest)).advance = onto (token :: before) rest := by
  cases rest with
  | nil => exact absurd rfl hne
  | cons next rest =>
    rw [onto_cons hnewline, advance, if_neg heof]
    rfl

theorem skipLineBreaks_onto (h : token.kind ≠ .newline) :
    (onto before (token :: rest)).skipLineBreaks = onto before (token :: rest) := by
  rw [onto_cons h]
  change skipFrom (· = .newline) before token rest = _
  rw [← onto_cons h]
  rfl

theorem previous?_onto (before tokens : List Token) :
    (onto before tokens).previous? = before.find? (·.kind ≠ .newline) := by
  cases tokens with
  | nil => rfl
  | cons token rest => exact previous?_skipFrom before token rest

theorem peek_cons (h : next.kind ≠ .newline) : (Cursor.mk before token (next :: rest)).peek = next := by
  rw [peek, List.find?_cons_of_pos (by simpa using h)]
  rfl

theorem length_le_position_onto (before tokens : List Token) : before.length ≤ (onto before tokens).position := by
  cases tokens with
  | nil => exact Nat.le_refl _
  | cons token rest => exact position_skipFrom _ before token rest

/-! ## Inside an expression -/

/-- The kinds of tokens that can end an expression whatever stands before them. -/
def ending (kind : TokenKind) : Bool :=
  kind = .eof || kind.isTerminator || kind = .comma || kind.isClosing

/-- An operand may start: the expression does, or no operand is right before. -/
def Entering (first : Nat) (before : List Token) : Prop :=
  before.length = first ∨ ∀ previous, before.find? (·.kind ≠ .newline) = some previous → endsOperand previous = false

theorem entering_cons (hnewline : token.kind ≠ .newline) (h : endsOperand token = false) :
    Entering first (token :: before) := by
  refine .inr fun previous hprevious => ?_
  rw [List.find?_cons_of_pos (by simpa using hnewline)] at hprevious
  cases hprevious
  exact h

/-- An operand may start behind a parenthesis that opens and behind an operator. -/
theorem entering_of_kind (h : token.kind = .opening .round ∨ token.kind = .operator) :
    Entering first (token :: before) := by
  refine entering_cons (by rcases h with h | h <;> simp [h]) ?_
  rw [endsOperand, Token.isKeyword]
  rcases h with h | h <;> rw [h] <;> rfl

theorem newline_ne_of_not_ending (h : ending token.kind = false) : token.kind ≠ .newline := by
  intro hkind
  rw [hkind] at h
  cases h

theorem eof_ne_of_not_ending (h : ending token.kind = false) : token.kind ≠ .eof := by
  intro hkind
  rw [hkind] at h
  cases h

/-- What an expression does at a token that is no end by itself. -/
theorem boundary_of_not_ending {cursor : Cursor} {balanced : Bool} (h : ending cursor.current.kind = false)
    (hinside : cursor.position = first ∨ (cursor.previous?.any endsOperand && startsOperand cursor.current) = false) :
    cursor.boundary first balanced = .inside := by
  simp only [ending, Bool.or_eq_false_iff, decide_eq_false_iff_not] at h
  obtain ⟨⟨⟨heof, hterminator⟩, hcomma⟩, hclosing⟩ := h
  rw [boundary, if_neg heof]
  by_cases hposition : cursor.position = first
  · rw [if_pos hposition]
  · have hadjacent := hinside.resolve_left hposition
    rw [if_neg hposition, hterminator, hclosing]
    simp only [hcomma, decide_false, Bool.false_and, Bool.or_self, Bool.false_eq_true, if_false]
    cases hprevious : cursor.previous? with
    | none => rfl
    | some previous =>
      rw [hprevious, Option.any_some] at hadjacent
      dsimp only
      rw [hadjacent]
      rfl

/-- An expression takes in a token where an operand may start. -/
theorem boundary_entering {balanced : Bool} (h : ending token.kind = false) (hentering : Entering first before) :
    (onto before (token :: rest)).boundary first balanced = .inside := by
  have honto : onto before (token :: rest) = ⟨before, token, rest⟩ := onto_cons (newline_ne_of_not_ending h)
  refine boundary_of_not_ending (by rw [honto]; exact h) ?_
  rcases hentering with hposition | hprevious
  · left
    rw [honto]
    exact hposition
  · right
    rw [previous?_onto]
    cases hfind : before.find? (·.kind ≠ .newline) with
    | none => rfl
    | some previous => rw [Option.any_some, hprevious previous hfind, Bool.false_and]

/-- An expression takes in a token that starts no operand. -/
theorem boundary_onto_of_not_starts {balanced : Bool} (h : ending token.kind = false)
    (hstarts : startsOperand token = false) : (onto before (token :: rest)).boundary first balanced = .inside := by
  have honto : onto before (token :: rest) = ⟨before, token, rest⟩ := onto_cons (newline_ne_of_not_ending h)
  refine boundary_of_not_ending (by rw [honto]; exact h) (.inr ?_)
  rw [honto, hstarts, Bool.and_false]

/-- A closing bracket belongs to the expression if a bracket is open in it. -/
theorem boundary_onto_closing {shape : Bracket} (h : token.kind = .closing shape) :
    (onto before (token :: rest)).boundary first false = .inside := by
  have hstarts : startsOperand token = false := by
    simp [startsOperand, h, TokenKind.isObject, TokenKind.isLiteral, TokenKind.isOpening, Token.isKeyword,
      Token.isUnaryOperator, Token.isOperator]
  rw [onto_cons (by rw [h]; exact TokenKind.noConfusion), boundary]
  simp only [h, TokenKind.isTerminator, TokenKind.isClosing, hstarts, Bool.and_false, Bool.or_self, reduceCtorEq,
    decide_false, Bool.false_eq_true, if_false]
  split
  · rfl
  · split <;> rfl

theorem track_of_not_bracket {waiting : List TokenKind} {kind : TokenKind} (h : kind.isBracket = false) :
    track waiting kind = waiting := by
  unfold track
  rw [h]
  rfl

theorem track_opening (waiting : List TokenKind) (shape : Bracket) :
    track waiting (.opening shape) = .opening shape :: waiting := by
  cases waiting with
  | nil => rfl
  | cons last others =>
    rw [track]
    have hpairs : last.pairs (.opening shape) = false := by cases last <;> rfl
    simp [TokenKind.isBracket, TokenKind.isOpening, hpairs]

theorem track_closing (waiting : List TokenKind) (shape : Bracket) :
    track (.opening shape :: waiting) (.closing shape) = waiting := by
  simp [track, TokenKind.isBracket, TokenKind.isClosing, TokenKind.pairs]

/-! ## Behind an expression -/

/-- A name or literal before the tokens is not called, indexed, assigned to or the like. -/
structure Clear (following : List Token) : Prop where
  ne_nil : following ≠ []
  raw : ∀ token, following.head? = some token → token.kind ≠ .opening .round
  next : ∀ token, following.find? (·.kind ≠ .newline) = some token →
    token.kind ≠ .opening .square ∧ token.kind ≠ .dot ∧ token.kind ≠ .assignment

theorem Clear.length_pos (h : Clear following) : 0 < following.length :=
  List.length_pos_iff.2 h.ne_nil

/-- An expression ends before the tokens: at a mark, at `else`, or at a line break before an operand. -/
inductive Stops : List Token → Prop where
  | mark {token : Token} {rest : List Token} : ending token.kind = true → token.kind ≠ .newline →
      Stops (token :: rest)
  | alternative {token : Token} {rest : List Token} : token.isKeywordOf "else" = true → Stops (token :: rest)
  | lineBreak {token next : Token} {rest : List Token} : token.kind = .newline → next.kind ≠ .newline →
      (ending next.kind = true ∨ startsOperand next = true) → next.kind ≠ .opening .square →
      Stops (token :: next :: rest)

theorem clear_cons (h : token.kind ≠ .newline ∧ token.kind ≠ .opening .round ∧ token.kind ≠ .opening .square ∧
    token.kind ≠ .dot ∧ token.kind ≠ .assignment) : Clear (token :: rest) := by
  obtain ⟨hnewline, hround, hothers⟩ := h
  refine ⟨List.cons_ne_nil _ _, fun head hhead => ?_, fun next hnext => ?_⟩
  · cases hhead
    exact hround
  · rw [List.find?_cons_of_pos (by simpa using hnewline)] at hnext
    cases hnext
    exact hothers

theorem ne_of_ending (h : ending token.kind = true) :
    token.kind ≠ .opening .round ∧ token.kind ≠ .opening .square ∧ token.kind ≠ .dot ∧ token.kind ≠ .assignment := by
  refine ⟨?_, ?_, ?_, ?_⟩ <;> intro hkind <;> rw [hkind] at h <;> cases h

theorem ne_of_startsOperand (h : startsOperand token = true) :
    token.kind ≠ .newline ∧ token.kind ≠ .dot ∧ token.kind ≠ .assignment := by
  obtain ⟨kind, text, span⟩ := token
  refine ⟨?_, ?_, ?_⟩ <;> rintro rfl <;> cases h

theorem Stops.clear (h : Stops following) : Clear following := by
  cases h with
  | mark hending hnewline => exact clear_cons ⟨hnewline, ne_of_ending hending⟩
  | alternative helse =>
    have hkind := kind_of_isKeywordOf helse
    exact clear_cons (by simp [hkind])
  | @lineBreak token next rest hbreak hnewline hnext hsquare =>
    refine ⟨List.cons_ne_nil _ _, fun head hhead => ?_, fun found hfound => ?_⟩
    · cases hhead
      rw [hbreak]
      exact TokenKind.noConfusion
    · rw [List.find?_cons_of_neg (by simpa using hbreak), List.find?_cons_of_pos (by simpa using hnewline)] at hfound
      cases hfound
      rcases hnext with hending | hstarts
      · exact (ne_of_ending hending).2
      · exact ⟨hsquare, (ne_of_startsOperand hstarts).2⟩

/-- An expression in which no bracket is open ends at a mark. -/
theorem boundary_of_ending {cursor : Cursor} (h : ending cursor.current.kind = true)
    (hposition : cursor.position ≠ first) : cursor.boundary first true = .ends := by
  rw [boundary]
  by_cases heof : cursor.current.kind = .eof
  · rw [if_pos heof]
  · rw [if_neg heof, if_neg hposition, Bool.and_true]
    rw [ending, decide_eq_false heof, Bool.false_or] at h
    rw [if_pos h]

theorem boundary_onto_of_stops (h : Stops following) (hfirst : first < before.length) {previous : Token}
    (hprevious : before.find? (·.kind ≠ .newline) = some previous) (hends : endsOperand previous = true) :
    (onto before following).boundary first true = .ends := by
  have hposition : (onto before following).position ≠ first := by
    have hle := length_le_position_onto before following
    omega
  have hany : (onto before following).previous?.any endsOperand = true := by
    rw [previous?_onto, hprevious, Option.any_some, hends]
  cases h with
  | mark hending hnewline => exact boundary_of_ending (by rw [current_onto hnewline]; exact hending) hposition
  | @alternative token rest helse =>
    have hkind := kind_of_isKeywordOf helse
    have hcurrent : (onto before (token :: rest)).current = token :=
      current_onto (by rw [hkind]; exact TokenKind.noConfusion)
    rw [boundary_of_startsOperand hposition (by rw [hcurrent]; exact startsOperand_of_keyword hkind), hany,
      hcurrent, helse, Bool.or_true]
    rfl
  | @lineBreak token next rest hbreak hnewline hnext hsquare =>
    rw [onto_newline hbreak (List.cons_ne_nil _ _)] at hposition hany ⊢
    rcases hnext with hending | hstarts
    · exact boundary_of_ending (by rw [current_onto hnewline]; exact hending) hposition
    · have hfollows : (onto (token :: before) (next :: rest)).followsBreak = true := by
        rw [onto_cons hnewline]
        change token.kind.isBreak = true
        rw [hbreak]
        rfl
      rw [boundary_of_startsOperand hposition (by rw [current_onto hnewline]; exact hstarts), hany, hfollows]
      rfl

end GradualScript.Cursor

/-! ## Readings -/

namespace GradualScript.CursorM

open Cursor (onto onto_cons current_onto advance_onto skipLineBreaks_onto)

variable {before rest : List Token} {token : Token}

theorem currentKind_onto (h : token.kind ≠ .newline) :
    currentKind (onto before (token :: rest)) = .ok token.kind (onto before (token :: rest)) := by
  rw [currentKind, current_onto h]

theorem skipLineBreaks_run_onto (h : token.kind ≠ .newline) :
    skipLineBreaks (onto before (token :: rest)) = .ok () (onto before (token :: rest)) := by
  change EStateM.Result.ok () (onto before (token :: rest)).skipLineBreaks = _
  rw [skipLineBreaks_onto h]

theorem advance_run_onto (hnewline : token.kind ≠ .newline) (heof : token.kind ≠ .eof) (hne : rest ≠ []) :
    advance (onto before (token :: rest)) = .ok token (onto (token :: before) rest) := by
  rw [advance, current_onto hnewline, advance_onto hnewline heof hne]

theorem expect_onto {kind : TokenKind} (h : token.kind = kind) (hnewline : kind ≠ .newline) (heof : kind ≠ .eof)
    (hne : rest ≠ []) : expect kind (onto before (token :: rest)) = .ok token (onto (token :: before) rest) := by
  subst h
  refine expect_eq_ok.2 ⟨?_, ?_, (advance_onto hnewline heof hne).symm⟩
  · rw [current_onto hnewline]
  · rw [current_onto hnewline]

theorem expectKeyword_onto {word : String} (h : token.isKeywordOf word = true) (hne : rest ≠ []) :
    expectKeyword word (onto before (token :: rest)) = .ok token (onto (token :: before) rest) := by
  have hkind := Cursor.kind_of_isKeywordOf h
  have hnewline : token.kind ≠ .newline := by simp [hkind]
  refine expectKeyword_eq_ok.2 ⟨?_, ?_, (advance_onto hnewline (by simp [hkind]) hne).symm⟩
  · rw [current_onto hnewline]
    exact h
  · rw [current_onto hnewline]

/-- A loop is given as many steps as there are tokens to come, the current one among them. -/
theorem bounded_onto {α : Type} {loop : Nat → CursorM α} (h : token.kind ≠ .newline) :
    bounded loop (onto before (token :: rest)) = loop (token :: rest).length (onto before (token :: rest)) := by
  rw [onto_cons h]
  rfl

end GradualScript.CursorM
