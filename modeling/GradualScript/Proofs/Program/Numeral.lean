import Mathlib.Algebra.Group.Nat.Even
import Mathlib.Data.Nat.Digits.Defs
import GradualScript.Proofs.Program.Agreement
import GradualScript.Proofs.Token.Shape
import GradualScript.Proofs.Walk.Invariant

/-!
# Numerals with signs

A numeral is a row of digits of any length, and any number of minus signs may stand before it.

* `Numeral.value`, `Numeral.signed` : the number that digits spell, and digits with minus signs before them;
* `Lexeme.split_signed`, `tokenize_signed` : every sign becomes a token of its own, which is unary, and the digits one;
* `Executor.line_le_lineBreaks` : without calls, errors are reported at lines of the tokens;
* `Numeral.term` : a numeral as a tree, and what it means (`exists_resolve_term`, `resolve_term_of_error`);
* `evaluate_numeral` : the value of a numeral is that of its digits, with its sign changed by each minus sign.
-/

set_option autoImplicit false

namespace GradualScript

/-! ## Digits -/

namespace Numeral

/-- The text is made up of digits alone. -/
structure Spelled (digits : String) : Prop where
  ne_empty : digits ≠ ""
  digits : ∀ c ∈ digits.toList, c.isDigit = true

/-- The number that the digits spell. -/
def value (digits : String) : Nat :=
  Nat.ofDigits 10 (digits.toList.reverse.map fun c => c.toNat - '0'.toNat)

/-- Minus signs before digits. -/
def signed (signs : Nat) (digits : String) : String :=
  String.ofList (List.replicate signs '-') ++ digits

theorem Spelled.ne_nil {digits : String} (h : Spelled digits) : digits.toList ≠ [] := by
  intro hnil
  exact h.ne_empty (String.toList_eq_nil_iff.1 hnil)

end Numeral

namespace Decimal

variable {digits : List Char}

theorem natOfDigits_eq_ofDigits (digits : List Char) :
    natOfDigits digits = Nat.ofDigits 10 (digits.reverse.map fun c => c.toNat - '0'.toNat) := by
  rw [Nat.ofDigits_eq_foldr, List.foldr_map, List.foldr_reverse, natOfDigits]
  simp only [Nat.add_comm, Nat.cast_id]

theorem signed_digits (h : ∀ c ∈ digits, c.isDigit = true) : signed digits = (false, digits) := by
  unfold signed
  split
  · exact absurd (h _ List.mem_cons_self) (by decide)
  · exact absurd (h _ List.mem_cons_self) (by decide)
  · rfl

theorem int?_digits (hne : digits ≠ []) (h : ∀ c ∈ digits, c.isDigit = true) :
    int? digits = Integer.narrow? (natOfDigits digits) := by
  have hdigits : (digits.isEmpty || !digits.all Char.isDigit) = false := by
    rw [List.all_eq_true.2 h, List.isEmpty_eq_false_iff.2 hne]
    rfl
  rw [int?, signed_digits h]
  dsimp only
  rw [hdigits, if_neg Bool.false_ne_true, if_neg Bool.false_ne_true]

end Decimal

/-! ## Tokens -/

namespace Lexeme

variable {digits : List Char}

/-- A minus sign. -/
def minus : Lexeme := ⟨.sign, ['-']⟩

/-- A minus sign is a lexeme of its own before another one and before a digit. -/
theorem parted_minus {rest : List Char} (h : ∀ c ∈ rest, c = '-' ∨ c.isDigit = true) : Parted minus rest := by
  refine .of_stopsAt nofun fun c hc => ?_
  rcases h c (List.mem_of_mem_head? hc) with rfl | hdigit
  · rfl
  · have hlonger : ∀ pair ∈ longer, ∀ d ∈ pair, d.isDigit = false := by simp [longer]
    change longer.contains (['-'] ++ [c]) = false
    refine longer_eq_false (fun pair hpair hmem => ?_) _
    rw [hlonger pair hpair c hmem] at hdigit
    cases hdigit

theorem split_signed (hne : digits ≠ []) (h : ∀ c ∈ digits, c.isDigit = true) (signs : Nat) :
    split (List.replicate signs '-' ++ digits) = (List.replicate signs minus ++ [⟨.number, digits⟩], []) := by
  induction signs with
  | zero =>
    have hfirst : first? (digits ++ []) = some (⟨.number, digits⟩, []) :=
      first?_of_formed (Formed.integer hne h) (Parted.nil _)
    rw [List.append_nil] at hfirst
    have hnil : split [] = ([], []) := by rw [split]; rfl
    rw [List.replicate_zero, List.nil_append, split_of_first? hfirst, hnil]
    rfl
  | succ signs ih =>
    have hrest : ∀ c ∈ List.replicate signs '-' ++ digits, c = '-' ∨ c.isDigit = true := by
      intro c hc
      rcases List.mem_append.1 hc with hc | hc
      · exact .inl (List.eq_of_mem_replicate hc)
      · exact .inr (h c hc)
    have hfirst : first? ('-' :: (List.replicate signs '-' ++ digits)) =
        some (minus, List.replicate signs '-' ++ digits) :=
      first?_of_formed (Formed.sign rfl) (parted_minus hrest)
    rw [List.replicate_succ, List.cons_append, split_of_first? hfirst, ih]
    rfl

end Lexeme

namespace Lexing

variable {lexing : Lexing} {digits : List Char}

theorem reading?_digits (h : ∀ c ∈ digits, c.isDigit = true) (unary : Bool) :
    Lexeme.reading? ⟨.number, digits⟩ unary = some (.int, digits) := by
  have hpoint : digits.contains '.' = false := by
    rw [Bool.eq_false_iff]
    intro hmem
    exact absurd (h _ (List.contains_iff_mem.1 hmem)) (by decide)
  rw [Lexeme.reading?]
  dsimp only
  rw [hpoint]
  rfl

/-- Where an operand is expected and no bracket is open, a minus sign is unary, and an operand is expected behind it. -/
theorem read_minus (file : String) (hopened : lexing.opened = []) (h : lexing.expectsOperand = true) :
    ∃ token : Token, (lexing.read file .minus).tokens = token :: lexing.tokens ∧ token.face = .operator .minus ∧
      (lexing.read file .minus).opened = [] ∧ (lexing.read file .minus).expectsOperand = true := by
  have hread : lexing.read file .minus =
      ⟨⟨.operator, "$-", .ofBytes lexing.offset 1 file⟩ :: lexing.tokens, lexing.offset + 1, []⟩ := by
    rw [read, h, hopened]
    rfl
  rw [hread]
  exact ⟨_, rfl, rfl, rfl, rfl⟩

theorem faces_readSigned (file : String) (hdigits : ∀ c ∈ digits, c.isDigit = true) (signs : Nat)
    (hopened : lexing.opened = []) (h : lexing.expectsOperand = true) :
    (List.foldl (read file) lexing (List.replicate signs .minus ++ [⟨.number, digits⟩])).tokens.reverse.map Token.face =
      lexing.tokens.reverse.map Token.face ++
        (List.replicate signs (Face.operator .minus) ++ [⟨.int, String.ofList digits⟩]) := by
  induction signs generalizing lexing with
  | zero =>
    rw [List.replicate_zero, List.replicate_zero, List.nil_append, List.nil_append, List.foldl_cons, List.foldl_nil,
      read, reading?_digits hdigits, List.reverse_cons, List.map_append]
    rfl
  | succ signs ih =>
    obtain ⟨token, htokens, hface, hopened', hoperand⟩ := read_minus file hopened h
    rw [List.replicate_succ, List.cons_append, List.foldl_cons, ih hopened' hoperand, htokens, List.reverse_cons,
      List.map_append, List.map_singleton, hface, List.replicate_succ, List.append_assoc]
    rfl

end Lexing

/-! ## Programs without calls -/

theorem Token.hasCall_eq_false {tokens : List Token} (h : ∀ token ∈ tokens, token.kind ≠ .opening .round) :
    hasCall tokens = false := by
  fun_induction hasCall tokens with
  | case1 token next rest ih =>
    obtain ⟨-, hrest⟩ := List.forall_mem_cons.1 h
    rw [ih hrest, decide_eq_false (hrest next List.mem_cons_self), Bool.and_false, Bool.or_false]
  | case2 => rfl

/-- Without calls every error of the tokens is at one of their lines. -/
theorem Executor.line_le_lineBreaks {levels : Nat} {tokens : List Token} {context later : Context} {error : Error}
    (hcall : Token.hasCall tokens = false)
    (h : Executor.block (levels + 1) tokens [] context = .error (.error error) later) :
    error.line ≤ Token.lineBreaks tokens := by
  have hsustains : (Executor.block levels).Sustains tokens (fun _ => True) (fun _ => True)
      (fun failure => ∀ error, failure = .error error → error.line ≤ Token.lineBreaks tokens) :=
    { fault := fun _ _ hfault => nomatch hfault
      error := by
        rintro kind line hline _ ⟨⟩
        exact hline
      invoke := by
        intro function items hsome
        rw [hcall] at hsome
        cases hsome
      bare := fun _ _ => trivial
      lambda := fun _ _ => trivial
      lookup? := fun _ _ => trivial
      host := fun _ _ _ _ => trivial
      constructor := fun _ _ _ _ => trivial
      assign := fun _ _ _ => trivial
      declare := fun _ _ _ => trivial
      push := fun _ => trivial
      pop := fun _ _ => trivial }
  exact (Executor.meets_block_succ hsustains (List.forall_mem_nil _)).error trivial h error rfl

/-! ## Tokens of a numeral -/

namespace Numeral

variable {digits : String} {signs : Nat}

/-- What the tokens say of minus signs before digits. -/
def faces (signs : Nat) (digits : String) : List Face :=
  List.replicate signs (Face.operator .minus) ++ [⟨.int, digits⟩]

theorem tokenize_signed (h : Spelled digits) (signs : Nat) :
    ∃ tokens, (Source.ofText (signed signs digits)).tokenize = .ok tokens ∧
      tokens.map Token.face = faces signs digits ++ [.mark .eof] := by
  have hsplit := Lexeme.split_signed h.ne_nil h.digits signs
  have hfaces := Lexing.faces_readSigned "shell" h.digits signs (show Lexing.start.opened = [] from rfl) rfl
  have htext : (signed signs digits).toList = List.replicate signs '-' ++ digits.toList := by
    rw [signed, String.toList_append, String.toList_ofList]
  refine ⟨_, by rw [Source.ofText, Source.tokenize, htext, hsplit], ?_⟩
  rw [Lexing.finish, List.reverse_cons, List.map_append, hfaces, String.ofList_toList]
  rfl

/-! ## Values -/

/-- Digits as a literal, with minus signs before it. -/
def term (digits : String) : Nat → Term
  | 0 => .literal ⟨.int, digits, rfl⟩
  | signs + 1 => .unary .minus (term digits signs)

theorem faces_term (digits : String) (signs : Nat) : (term digits signs).faces = faces signs digits := by
  induction signs with
  | zero => rfl
  | succ signs ih =>
    rw [term, Term.faces, ih]
    rfl

theorem takesOperand_term (digits : String) (signs : Nat) :
    Operator.takesOperand (term digits signs).root? = true := by
  cases signs with
  | zero => rfl
  | succ signs => rfl

theorem valid_term (registry : Registry) (digits : String) (signs : Nat) : (term digits signs).Valid registry := by
  induction signs with
  | zero => trivial
  | succ signs ih => exact ⟨rfl, takesOperand_term digits signs, ih⟩

/-- The number with its sign changed as often as there are minus signs. -/
def result (signs : Nat) (digits : String) : Int :=
  if Even signs then value digits else -value digits

theorem result_succ (signs : Nat) (digits : String) : result (signs + 1) digits = -result signs digits := by
  unfold result
  by_cases heven : Even signs
  · rw [if_pos heven, if_neg (by rwa [Nat.even_add_one, not_not])]
  · rw [if_neg heven, if_pos (by rwa [Nat.even_add_one]), Int.neg_neg]

/-- The largest integer. -/
def largest : Nat := 2 ^ 63 - 1

theorem int?_spelled (h : Spelled digits) : Decimal.int? digits.toList = Integer.narrow? (value digits) := by
  rw [Decimal.int?_digits h.ne_nil h.digits, Decimal.natOfDigits_eq_ofDigits, value]

theorem inRange_value_iff : Integer.InRange (value digits) ↔ value digits ≤ largest := by
  unfold Integer.InRange largest
  omega

theorem literal_value_of_le (h : Spelled digits) (hle : value digits ≤ largest) :
    ∃ x : Int64, x.toInt = value digits ∧ Literal.value ⟨.int, digits, rfl⟩ = .ok (.int x) := by
  cases hnarrow : Integer.narrow? (value digits) with
  | none => exact absurd (inRange_value_iff.2 hle) (Integer.narrow?_eq_none_iff.1 hnarrow)
  | some x =>
    refine ⟨x, Integer.narrow?_eq_some_iff.1 hnarrow, ?_⟩
    simp only [Literal.value, Item.ofLiteral, int?_spelled h, hnarrow]

theorem literal_value_of_lt (h : Spelled digits) (hlt : largest < value digits) :
    Literal.value ⟨.int, digits, rfl⟩ = .error (.malformedNumber digits) := by
  have hnarrow : Integer.narrow? (value digits) = none := by
    rw [Integer.narrow?_eq_none_iff, inRange_value_iff]
    omega
  simp only [Literal.value, Item.ofLiteral, int?_spelled h, hnarrow]

/-- Every minus sign changes the sign, which no integer of this size stands in the way of. -/
theorem exists_resolve_term (registry : Registry) (scopes : ScopeStack) {x : Int64} (hx : x.toInt = value digits)
    (hle : value digits ≤ largest) (h : Literal.value ⟨.int, digits, rfl⟩ = .ok (.int x)) (signs : Nat) :
    ∃ (tree : OperatorTree) (y : Int64), y.toInt = result signs digits ∧
      (term digits signs).resolve registry scopes = .ok tree scopes ∧ tree.eval = .ok (.int y) := by
  induction signs with
  | zero =>
    refine ⟨.value (.int x), x, hx, ?_, rfl⟩
    rw [term, Term.resolve, h]
    rfl
  | succ signs ih =>
    obtain ⟨tree, y, hy, hresolve, heval⟩ := ih
    have hneg : Integer.InRange (-y.toInt) := by
      unfold Integer.InRange
      rw [hy, result]
      unfold largest at hle
      split <;> omega
    refine ⟨.unary .minus tree, Int64.ofInt (-y.toInt), ?_, ?_, ?_⟩
    · rw [Int64.toInt_ofInt_of_le hneg.1 hneg.2, hy, result_succ]
    · rw [term, Term.resolve, bind_of_ok hresolve]
      rfl
    · rw [OperatorTree.eval, heval]
      change Operator.orOverflow "negation" (Integer.neg? y) = _
      rw [Integer.neg?, Integer.narrow?, if_pos hneg]
      rfl

theorem resolve_term_of_error (registry : Registry) (scopes : ScopeStack) {kind : ErrorKind}
    (h : Literal.value ⟨.int, digits, rfl⟩ = .error kind) (signs : Nat) :
    (term digits signs).resolve registry scopes = .error kind scopes := by
  induction signs with
  | zero =>
    rw [term, Term.resolve, h]
    rfl
  | succ signs ih => rw [term, Term.resolve, bind_of_error ih]

/-! ## Programs that are numerals -/

/-- A program that is one numeral. -/
def program (signs : Nat) (digits : String) : Block :=
  .cons (.expression (.term (term digits signs))) .nothing .nil

theorem valid_program (registry : Registry) (signs : Nat) (digits : String) :
    (program signs digits).Valid registry :=
  ⟨valid_term registry digits signs, fun _ => rfl, nofun, trivial⟩

theorem faces_program (signs : Nat) (digits : String) : (program signs digits).faces = faces signs digits := by
  rw [program, Block.faces, Statement.faces, Phrase.faces, faces_term]
  exact List.append_nil _

theorem execute_numeral {registry : Registry} {scopes : ScopeStack} {tree : OperatorTree} {item : Item}
    (h : (term digits signs).resolve registry scopes.push = .ok tree scopes.push) (heval : tree.eval = .ok item) :
    (program signs digits).execute registry scopes = .ok (.completed item) scopes := by
  have hvalue : (Phrase.term (term digits signs)).value registry scopes.push = .ok item scopes.push := by
    rw [Phrase.value, Effect.valueOf, Phrase.resolve, bind_of_ok h, heval]
    rfl
  have hstatement : (Statement.expression (.term (term digits signs))).run registry scopes.push =
      .ok (.completed item) scopes.push := by
    rw [Statement.run, bind_of_ok hvalue]
    rfl
  rw [Block.execute, Effect.inScope, program, Block.run, bind_of_ok hstatement]
  rfl

theorem execute_numeral_of_error {registry : Registry} {scopes : ScopeStack} {kind : ErrorKind}
    (h : (term digits signs).resolve registry scopes.push = .error kind scopes.push) :
    (program signs digits).execute registry scopes = .error kind scopes := by
  have hvalue : (Phrase.term (term digits signs)).value registry scopes.push = .error kind scopes.push := by
    rw [Phrase.value, Effect.valueOf, Phrase.resolve, bind_of_error h]
  have hstatement : (Statement.expression (.term (term digits signs))).run registry scopes.push =
      .error kind scopes.push := by
    rw [Statement.run, bind_of_error hvalue]
  rw [Block.execute, Effect.inScope, program, Block.run, bind_of_error hstatement]
  rfl

section Running

variable {tokens : List Token}

theorem executor_program (context : Context) (h : tokens.map Token.face = faces signs digits ++ [.mark .eof]) :
    context.executor tokens [] = ContextM.walk (Cursor.onto [] tokens)
      (WalkM.inScope (WalkM.statements (Executor.block (context.config.maxCallDepth - context.callDepth)))) := by
  rw [← faces_program] at h
  exact Executor.block_program _ (valid_program context.registry signs digits) h _

theorem ends_program (context : Context) (h : tokens.map Token.face = faces signs digits ++ [.mark .eof]) :
    ∃ place, Ends context ((program signs digits).execute context.registry context.scopes) place
      (WalkM.inScope (WalkM.statements (Executor.block (context.config.maxCallDepth - context.callDepth)))
        ⟨Cursor.onto [] tokens, context⟩) := by
  rw [← faces_program] at h
  have hsteady := Executor.steady_block (context.config.maxCallDepth - context.callDepth)
  obtain ⟨place, hends⟩ := ends_statements hsteady _ (valid_program _ signs digits) h context.scopes.push
  exact ⟨place, ends_inScope (WalkM.growing_statements hsteady) hends⟩

theorem run_numeral (context : Context) {item : Item}
    (h : tokens.map Token.face = faces signs digits ++ [.mark .eof])
    (hexecute : (program signs digits).execute context.registry context.scopes =
      .ok (.completed item) context.scopes) : context.executor tokens [] context = .ok (.completed item) context := by
  obtain ⟨place, hends⟩ := ends_program context h
  rw [hexecute] at hends
  obtain ⟨cursor, hrun, -⟩ := hends
  rw [executor_program context h, ContextM.walk, hrun]
  rfl

theorem ne_of_face {kind : TokenKind} (h : tokens.map Token.face = faces signs digits ++ [.mark .eof])
    (hoperator : kind ≠ .operator) (hint : kind ≠ .int) (heof : kind ≠ .eof) : ∀ token ∈ tokens, token.kind ≠ kind := by
  rintro token hmem rfl
  have hface := List.mem_map_of_mem (f := Token.face) hmem
  rw [h, faces] at hface
  simp only [List.mem_append, List.mem_replicate, List.mem_singleton] at hface
  rcases hface with (⟨-, hface⟩ | hface) | hface
  · exact hoperator (Token.kind_of_face hface)
  · exact hint (Token.kind_of_face hface)
  · exact heof (Token.kind_of_face hface)

theorem run_numeral_of_error (context : Context) {kind : ErrorKind}
    (h : tokens.map Token.face = faces signs digits ++ [.mark .eof])
    (hexecute : (program signs digits).execute context.registry context.scopes = .error kind context.scopes) :
    context.executor tokens [] context = .error (.error ⟨kind, 0⟩) context := by
  obtain ⟨place, hends⟩ := ends_program context h
  rw [hexecute] at hends
  obtain ⟨line, cursor, hrun⟩ := hends
  have hcall : Token.hasCall tokens = false := Token.hasCall_eq_false (ne_of_face h nofun nofun nofun)
  have hnewline : ∀ token ∈ tokens, token.kind ≠ .newline := ne_of_face h nofun nofun nofun
  have hbreaks : Token.lineBreaks tokens = 0 := by
    rw [Token.lineBreaks, List.countP_eq_zero]
    intro token hmem hkind
    exact hnewline token hmem (of_decide_eq_true hkind)
  have hfail : context.executor tokens [] context = .error (.error ⟨kind, line⟩) context := by
    rw [executor_program context h, ContextM.walk, hrun]
    rfl
  have hline := Executor.line_le_lineBreaks hcall hfail
  rw [hbreaks, Nat.le_zero] at hline
  rw [hfail, ← hline]

end Running

theorem evaluate_of_executor {text : String} {tokens : List Token} {context : Context}
    (h : (Source.ofText text).tokenize = .ok tokens) :
    evaluate text context = (do return (← context.executor tokens []).item : ContextM Item) context := by
  change evaluateWith context.executor text context = _
  rw [evaluateWith, h]

theorem evaluate_of_le (context : Context) (h : Spelled digits) (hle : value digits ≤ largest) (signs : Nat) :
    ∃ x : Int64, x.toInt = result signs digits ∧ evaluate (signed signs digits) context = .ok (.int x) context := by
  obtain ⟨tokens, htokens, hfaces⟩ := tokenize_signed h signs
  obtain ⟨x, hx, hliteral⟩ := literal_value_of_le h hle
  obtain ⟨tree, y, hy, hresolve, heval⟩ :=
    exists_resolve_term context.registry context.scopes.push hx hle hliteral signs
  have hrun := run_numeral context hfaces (execute_numeral hresolve heval)
  refine ⟨y, hy, ?_⟩
  rw [evaluate_of_executor htokens, bind_of_ok hrun]
  rfl

theorem evaluate_of_lt (context : Context) (h : Spelled digits) (hlt : largest < value digits) (signs : Nat) :
    evaluate (signed signs digits) context = .error (.error ⟨.malformedNumber digits, 0⟩) context := by
  obtain ⟨tokens, htokens, hfaces⟩ := tokenize_signed h signs
  have hresolve := resolve_term_of_error context.registry context.scopes.push (literal_value_of_lt h hlt) signs
  have hrun := run_numeral_of_error context hfaces (execute_numeral_of_error hresolve)
  rw [evaluate_of_executor htokens, bind_of_error hrun]

end Numeral

/-- A numeral has the value of its digits, with its sign changed by each minus sign, if the digits spell an integer that
is not too large; otherwise the digits are reported. The least integer is the value of none. -/
theorem evaluate_numeral (context : Context) (signs : Nat) {digits : String} (h : Numeral.Spelled digits) :
    (Numeral.value digits ≤ 2 ^ 63 - 1 → ∃ x : Int64,
      (Even signs → x.toInt = Numeral.value digits) ∧ (Odd signs → x.toInt = -Numeral.value digits) ∧
        evaluate (Numeral.signed signs digits) context = .ok (.int x) context) ∧
    (2 ^ 63 - 1 < Numeral.value digits →
      evaluate (Numeral.signed signs digits) context = .error (.error ⟨.malformedNumber digits, 0⟩) context) ∧
    ∀ later, evaluate (Numeral.signed signs digits) context ≠ .ok (.int Int64.minValue) later := by
  refine ⟨fun hle => ?_, fun hlt => Numeral.evaluate_of_lt context h hlt signs, fun later hrun => ?_⟩
  · obtain ⟨x, hx, hrun⟩ := Numeral.evaluate_of_le context h hle signs
    rw [Numeral.result] at hx
    refine ⟨x, fun heven => ?_, fun hodd => ?_, hrun⟩
    · rw [hx, if_pos heven]
    · rw [hx, if_neg (Nat.not_even_iff_odd.2 hodd)]
  · rcases Nat.lt_or_ge Numeral.largest (Numeral.value digits) with hlt | hle
    · rw [Numeral.evaluate_of_lt context h hlt signs] at hrun
      cases hrun
    · obtain ⟨x, hx, hvalue⟩ := Numeral.evaluate_of_le context h hle signs
      rw [hvalue] at hrun
      cases hrun
      rw [Numeral.result, Int64.toInt_minValue] at hx
      unfold Numeral.largest at hle
      split at hx <;> omega

/-- The largest integer can be spelled and negated, with zeros before it too, and the number behind it cannot. -/
theorem evaluate_numeral_edge :
    Numeral.Spelled "009223372036854775807" ∧ Numeral.Spelled "9223372036854775808" ∧
      (∃ x : Int64, x.toInt = -9223372036854775807 ∧
        evaluate "---009223372036854775807" default = .ok (.int x) default) ∧
      evaluate "-9223372036854775808" default =
        .error (.error ⟨.malformedNumber "9223372036854775808", 0⟩) default := by
  have hlargest : Numeral.Spelled "009223372036854775807" := ⟨by decide, List.all_eq_true.1 rfl⟩
  have hbeyond : Numeral.Spelled "9223372036854775808" := ⟨by decide, List.all_eq_true.1 rfl⟩
  have hvalue : Numeral.value "009223372036854775807" = 9223372036854775807 := by decide
  obtain ⟨x, -, hx, hrun⟩ := (evaluate_numeral default 3 hlargest).1 (Nat.le_of_eq hvalue)
  refine ⟨hlargest, hbeyond, ⟨x, ?_, hrun⟩, (evaluate_numeral default 1 hbeyond).2.1 (by decide)⟩
  rw [hx (by decide), hvalue]
  rfl

end GradualScript
