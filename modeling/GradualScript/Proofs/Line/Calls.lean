import GradualScript.Proofs.Line.Reading

/-!
# Lines of errors that come through calls

A function counts its lines from where it starts, in the tokens that it was declared in. An error that leaves the
function is moved down by as many lines, wherever the call was.

* `Function.DeclaredIn`, `Token.Part`, `Function.WrittenIn` : the functions of a program, and the tokens that they are
  declared in: those of the program, or of the body of one of its functions;
* `Reported` : a line that is reported through a list of calls, the outermost first;
* `Reported.le_mul` : with each call the line may be off by as many lines as the program has;
* `Reported.le_of_nested`, `Reported.le_of_length` : it is a line of the program if each function is declared in the one
  that calls it, or if there is one call at most;
* `Token.blocks` : the tokens inside each pair of braces, which all bodies are among; if no calls stand there, then an
  error comes through one call at most (`Reported.le_of_blocks`).
-/

set_option autoImplicit false

namespace GradualScript

open Token (lineBreaks lineBreaks_append)

/-! ## Functions of a program -/

/-- The function is read somewhere in the tokens. -/
def Function.DeclaredIn (tokens : List Token) (function : Function) : Prop :=
  ∃ cursor later, cursor.tokens = tokens ∧ CursorM.lambda cursor = .ok function later

/-- The tokens are those of the program, or of the body of a function declared in such tokens. -/
inductive Token.Part (program : List Token) : List Token → Prop where
  | whole : Part program program
  | body {tokens : List Token} {function : Function} :
    Part program tokens → function.DeclaredIn tokens → Part program function.body

/-- The function is declared in the program, or in the body of a function of the program. -/
def Function.WrittenIn (program : List Token) (function : Function) : Prop :=
  ∃ tokens, Token.Part program tokens ∧ function.DeclaredIn tokens

variable {program tokens : List Token} {function : Function} {calls : List Function} {line : Nat}

/-- All lines of a function are lines of the tokens that it is declared in. -/
theorem Function.DeclaredIn.lines (h : function.DeclaredIn tokens) :
    function.startLine + lineBreaks function.body ≤ lineBreaks tokens := by
  obtain ⟨cursor, later, rfl, h⟩ := h
  obtain ⟨place, inner, htokens, hopening, hinner, hbody, hline⟩ := CursorM.exists_of_lambda h
  obtain ⟨closing, more, hrest, -⟩ := Token.curlyBody?_eq_some hinner
  have hbreaks : lineBreaks function.body = lineBreaks inner := by
    rw [hbody, lineBreaks_append]
    rfl
  have hbehind : lineBreaks (place.current :: place.rest) = lineBreaks inner + lineBreaks (closing :: more) := by
    rw [hrest, lineBreaks, List.countP_cons_of_neg (by simp [hopening])]
    exact lineBreaks_append inner (closing :: more)
  rw [← htokens, place.lineBreaks_tokens, hbehind, hbreaks, hline]
  omega

theorem Token.Part.lineBreaks_le (h : Part program tokens) : lineBreaks tokens ≤ lineBreaks program := by
  induction h with
  | whole => exact Nat.le_refl _
  | body _ hdeclared ih =>
    have hlines := hdeclared.lines
    omega

theorem Function.WrittenIn.lines (h : function.WrittenIn program) :
    function.startLine + lineBreaks function.body ≤ lineBreaks program := by
  obtain ⟨tokens, hpart, hdeclared⟩ := h
  exact Nat.le_trans hdeclared.lines hpart.lineBreaks_le

/-! ## Calls in tokens -/

/-- A name or a literal with a parenthesis right behind it is among the tokens. -/
def Token.hasCall : List Token → Bool
  | token :: next :: rest => token.kind.isObject && next.kind = .opening .round || hasCall (next :: rest)
  | _ => false

theorem Token.hasCall_cons (token : Token) {tokens : List Token} (h : hasCall tokens = true) :
    hasCall (token :: tokens) = true := by
  cases tokens with
  | nil => cases h
  | cons next tokens => rw [hasCall, h, Bool.or_true]

/-- The cursor is at a call. -/
theorem Cursor.hasCall_tokens {cursor : Cursor} (hobject : cursor.current.kind.isObject = true)
    (hparen : cursor.peekRaw.kind = .opening .round) : Token.hasCall cursor.tokens = true := by
  obtain ⟨before, token, rest⟩ := cursor
  rw [tokens]
  induction before.reverse with
  | cons first others ih => exact Token.hasCall_cons first ih
  | nil =>
    cases rest with
    | nil =>
      change token.kind = .opening .round at hparen
      change token.kind.isObject = true at hobject
      rw [hparen] at hobject
      cases hobject
    | cons next rest =>
      change next.kind = .opening .round at hparen
      change token.kind.isObject = true at hobject
      simp [Token.hasCall, hobject, hparen]

/-- The end of input is no part of a call. -/
theorem Token.hasCall_eof (tokens : List Token) : hasCall (tokens ++ [Token.eof]) = hasCall tokens := by
  induction tokens with
  | nil => rfl
  | cons token tokens ih =>
    cases tokens with
    | nil => simp [hasCall, Token.eof]
    | cons next tokens =>
      rw [List.cons_append] at ih
      rw [List.cons_append, List.cons_append, hasCall, hasCall, ih]

/-! ## Reported lines -/

/-- A line that tokens of the program are reported at. Without a call it is one of their lines. Through a call from the
tokens it is a line that the body of the callee is reported at, moved down to where the callee starts. -/
inductive Reported (program : List Token) : List Token → List Function → Nat → Prop where
  | here {tokens : List Token} {line : Nat} : line ≤ lineBreaks tokens → Reported program tokens [] line
  | inside {tokens : List Token} {function : Function} {calls : List Function} {line : Nat} :
    Token.hasCall tokens = true → function.WrittenIn program → Reported program function.body calls line →
      Reported program tokens (function :: calls) (line + function.startLine)

/-- Each of the functions is declared in the body of the one before it, and the first in the tokens. -/
def Function.Nested : List Token → List Function → Prop
  | _, [] => True
  | tokens, function :: calls => function.DeclaredIn tokens ∧ Nested function.body calls

namespace Reported

/-- What goes wrong with a call itself is reported where the callee starts. -/
theorem start (hcall : Token.hasCall tokens = true) (hwritten : function.WrittenIn program) :
    Reported program tokens [function] function.startLine := by
  have h := Reported.inside hcall hwritten (.here (Nat.zero_le _))
  rwa [Nat.zero_add] at h

/-- If each function is declared in the one that calls it, then the line is one of the tokens. -/
theorem le_of_nested (h : Reported program tokens calls line) (hnested : Function.Nested tokens calls) :
    line ≤ lineBreaks tokens := by
  induction h with
  | here hline => exact hline
  | inside _ _ _ ih =>
    have hinside := ih hnested.2
    have hlines := hnested.1.lines
    omega

/-- The last of the functions reports a line of the program, and each one before moves that down. -/
theorem le_mul_length (h : Reported program tokens calls line) :
    calls = [] ∧ line ≤ lineBreaks tokens ∨ line ≤ lineBreaks program * calls.length := by
  induction h with
  | here hline => exact .inl ⟨rfl, hline⟩
  | inside _ hwritten _ ih =>
    have hlines := hwritten.lines
    right
    rw [List.length_cons, Nat.mul_succ]
    rcases ih with ⟨-, hline⟩ | hline
    · omega
    · omega

theorem le_of_length (h : Reported program tokens calls line) (hpart : Token.Part program tokens)
    (hlength : calls.length ≤ 1) : line ≤ lineBreaks program := by
  rcases h.le_mul_length with ⟨-, hline⟩ | hline
  · exact Nat.le_trans hline hpart.lineBreaks_le
  · calc line ≤ lineBreaks program * calls.length := hline
      _ ≤ lineBreaks program * 1 := Nat.mul_le_mul_left _ hlength
      _ = lineBreaks program := Nat.mul_one _

theorem le_mul (h : Reported program tokens calls line) (hpart : Token.Part program tokens) {n : Nat}
    (hlength : calls.length ≤ n + 1) : line ≤ lineBreaks program * (n + 1) := by
  rcases h.le_mul_length with ⟨-, hline⟩ | hline
  · have hle := hpart.lineBreaks_le
    rw [Nat.mul_succ]
    omega
  · exact Nat.le_trans hline (Nat.mul_le_mul_left _ hlength)

end Reported

/-! ## Bodies without calls -/

namespace Token

/-- The tokens between each opening brace and the brace that closes it. -/
def blocks : List Token → List (List Token)
  | [] => []
  | token :: rest => (if token.kind = .opening .curly then (curlyBody? 0 rest).toList else []) ++ blocks rest

theorem mem_blocks {inner : List Token} : inner ∈ blocks tokens ↔ ∃ before opening rest,
    tokens = before ++ opening :: rest ∧ opening.kind = .opening .curly ∧ curlyBody? 0 rest = some inner := by
  induction tokens with
  | nil => simp [blocks]
  | cons token tokens ih =>
    rw [blocks, List.mem_append, ih]
    constructor
    · rintro (hinner | ⟨before, opening, rest, rfl, hopening, hinner⟩)
      · split at hinner
        · rename_i hopening
          exact ⟨[], token, tokens, rfl, hopening, Option.mem_toList.1 hinner⟩
        · cases hinner
      · exact ⟨token :: before, opening, rest, rfl, hopening, hinner⟩
    · rintro ⟨before, opening, rest, heq, hopening, hinner⟩
      cases before with
      | nil =>
        cases heq
        left
        rw [if_pos hopening]
        exact Option.mem_toList.2 hinner
      | cons first before =>
        cases heq
        exact .inr ⟨before, opening, rest, rfl, hopening, hinner⟩

/-- A token other than the end of input stands before it. -/
theorem exists_of_append_eof {before rest inner : List Token} {token : Token} (htoken : token.kind ≠ .eof)
    (h : inner ++ [eof] = before ++ token :: rest) :
    ∃ middle, rest = middle ++ [eof] ∧ inner = before ++ token :: middle := by
  rcases List.eq_nil_or_concat rest with rfl | ⟨middle, last, rfl⟩
  · have hlast := List.append_inj_right' h rfl
    cases hlast
    exact absurd rfl htoken
  · rw [List.concat_eq_append, ← List.cons_append, ← List.append_assoc] at h
    obtain ⟨hinner, hlast⟩ := List.append_inj' h rfl
    cases hlast
    exact ⟨middle, List.concat_eq_append, hinner⟩

/-- Blocks inside a block are blocks of the tokens around it. -/
theorem blocks_subset {inner : List Token} (h : inner ∈ blocks tokens) : blocks (inner ++ [eof]) ⊆ blocks tokens := by
  obtain ⟨before, opening, rest, rfl, hopening, hinner⟩ := mem_blocks.1 h
  intro nested hnested
  obtain ⟨before', opening', rest', heq, hopening', hcurly⟩ := mem_blocks.1 hnested
  obtain ⟨middle, rfl, rfl⟩ := exists_of_append_eof (by rw [hopening']; exact nofun) heq
  obtain ⟨closing', more', heq', hclosing', hother⟩ := curlyBody?_eq_some hcurly
  obtain ⟨middle', rfl, rfl⟩ := exists_of_append_eof (by rw [hclosing']; exact nofun) heq'
  obtain ⟨closing, more, rfl, -⟩ := curlyBody?_eq_some hinner
  refine mem_blocks.2 ⟨before ++ opening :: before', opening', nested ++ closing' :: (middle' ++ closing :: more), ?_,
    hopening', hother _⟩
  simp

theorem mem_blocks_of_declaredIn (h : function.DeclaredIn tokens) :
    ∃ inner ∈ blocks tokens, function.body = inner ++ [eof] := by
  obtain ⟨cursor, later, rfl, h⟩ := h
  obtain ⟨place, inner, htokens, hopening, hinner, hbody, -⟩ := CursorM.exists_of_lambda h
  refine ⟨inner, mem_blocks.2 ⟨place.before.reverse, place.current, place.rest, ?_, hopening, hinner⟩, hbody⟩
  rw [← htokens, Cursor.tokens]

theorem Part.blocks_subset (h : Part program tokens) : blocks tokens ⊆ blocks program := by
  induction h with
  | whole => exact List.Subset.refl _
  | body _ hdeclared ih =>
    obtain ⟨inner, hinner, hbody⟩ := mem_blocks_of_declaredIn hdeclared
    rw [hbody]
    exact List.Subset.trans (Token.blocks_subset hinner) ih

/-- The body of every function of the program is one of its blocks. -/
theorem mem_blocks_of_writtenIn (h : function.WrittenIn program) :
    ∃ inner ∈ blocks program, function.body = inner ++ [eof] := by
  obtain ⟨tokens, hpart, hdeclared⟩ := h
  obtain ⟨inner, hinner, hbody⟩ := mem_blocks_of_declaredIn hdeclared
  exact ⟨inner, hpart.blocks_subset hinner, hbody⟩

end Token

/-- If no call stands between braces, then the line is one of the program. -/
theorem Reported.le_of_blocks (h : Reported program tokens calls line) (hpart : Token.Part program tokens)
    (hblocks : ∀ inner ∈ Token.blocks program, Token.hasCall inner = false) : line ≤ lineBreaks program := by
  refine h.le_of_length hpart ?_
  cases h with
  | here => exact Nat.zero_le _
  | inside _ hwritten hinside =>
    cases hinside with
    | here => exact Nat.le_refl _
    | inside hcall _ _ =>
      obtain ⟨inner, hinner, hbody⟩ := Token.mem_blocks_of_writtenIn hwritten
      rw [hbody, Token.hasCall_eof, hblocks inner hinner] at hcall
      cases hcall

end GradualScript
