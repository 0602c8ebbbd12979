import Mathlib.Algebra.Ring.Nat
import GradualScript.Proofs.Call.Boundary
import GradualScript.Proofs.Lambda.Declaration
import GradualScript.Proofs.Walk.Comparison

/-!
# Lines of bodies

A body is cut out of the tokens that its lambda stands in, and its lines count from the brace that opens it. A call
moves them back.

* `Cursor.braceIndex` : where the body of the lambda at a cursor is opened;
* `Token.Inlaid` : a body as part of the tokens around it, with a closing brace in place of its end of input
  (`inlaid_of_lambda`);
* `Nesting` : lambdas of which each is declared in the body of the one before (`Nesting.inlaid`);
* `Function.FailsThrough` : an error that comes out of a body through a chain of calls (`FailsThrough.invoke`);
* `body_lines` : through calls of nested lambdas an error is reported at the line of its token in the outermost tokens.
-/

set_option autoImplicit false

namespace GradualScript

open Token (lineOf)

/-! ## Where bodies are opened -/

/-- No brace is opened in the head of a lambda. -/
theorem HeadsLambda.ne_opening {tokens : List Token} {parameters : List Parameter} {names : List String}
    (h : HeadsLambda tokens parameters names) : ∀ token ∈ tokens, token.kind ≠ .opening .curly := by
  intro token htoken hopening
  have hkind := h.inHead token htoken
  rw [hopening] at hkind
  cases hkind

/-- The index of the first brace that is opened from the cursor on. -/
def Cursor.braceIndex (cursor : Cursor) : Nat :=
  cursor.position + (cursor.current :: cursor.rest).findIdx (·.kind = .opening .curly)

theorem Cursor.braceIndex_eq {cursor : Cursor} {head more : List Token} {brace : Token}
    (h : cursor.current :: cursor.rest = head ++ brace :: more)
    (hhead : ∀ token ∈ head, token.kind ≠ .opening .curly) (hbrace : brace.kind = .opening .curly) :
    cursor.braceIndex = cursor.position + head.length := by
  have hnone : head.findIdx (·.kind = .opening .curly) = head.length :=
    List.findIdx_eq_length.2 fun token hmem => decide_eq_false (hhead token hmem)
  rw [braceIndex, h, List.findIdx_append, hnone, if_neg (Nat.lt_irrefl _), List.findIdx_cons]
  simp [hbrace]

/-! ## One body -/

/-- The body stands in the tokens from the index on, with a closing brace in place of its end of input. -/
inductive Token.Inlaid : List Token → List Token → Nat → Prop where
  | mk {front inner more : List Token} {close : Token} : close.kind = .closing .curly →
      Inlaid (front ++ (inner ++ close :: more)) (inner ++ [Token.eof]) front.length

namespace Token.Inlaid

variable {tokens between body : List Token} {start offset : Nat}

/-- The lines of the body count from the line where it starts in the tokens. -/
theorem lineOf_add (h : Inlaid tokens body start) {index : Nat} (hindex : index < body.length) :
    lineOf body index + lineOf tokens start = lineOf tokens (start + index) := by
  obtain ⟨hclose⟩ := h
  rename_i front inner more close
  have hinner : index ≤ inner.length := by
    rw [List.length_append, List.length_singleton] at hindex
    omega
  rw [lineOf, lineOf, lineOf, List.take_left, List.take_length_add_append, List.countP_append,
    List.take_append_of_le_length hinner, List.take_append_of_le_length hinner, Nat.add_comm]

theorem terminated (h : Inlaid tokens body start) : Terminated body := by
  obtain ⟨-⟩ := h
  simp [Terminated, Token.eof]

theorem lt_length (h : Inlaid tokens body start) : start < tokens.length := by
  obtain ⟨-⟩ := h
  simp only [List.length_append, List.length_cons]
  omega

/-- A body in a body stands in the tokens around both. -/
theorem trans (h : Inlaid tokens between start) (h' : Inlaid between body offset) :
    Inlaid tokens body (start + offset) := by
  obtain ⟨hclose⟩ := h
  rename_i front inner more close
  generalize hbetween : inner ++ [Token.eof] = between at h'
  obtain ⟨hclose'⟩ := h'
  rename_i front' inner' more' close'
  -- The brace that closes the inner body is not the end of input, so tokens of the outer body come behind it.
  rcases List.eq_nil_or_concat more' with rfl | ⟨others, last, rfl⟩
  · have hlast := congrArg List.getLast? hbetween
    simp only [List.getLast?_append, List.getLast?_singleton, Option.some_or, Option.some.injEq] at hlast
    rw [← hlast] at hclose'
    cases hclose'
  · have hinner : inner = front' ++ (inner' ++ close' :: others) := by
      have hsplit : inner ++ [Token.eof] = (front' ++ (inner' ++ close' :: others)) ++ [last] := by
        rw [hbetween]
        simp
      exact (List.append_inj' hsplit rfl).1
    subst hinner
    have hall := @Inlaid.mk (front ++ front') inner' (others ++ close :: more) close' hclose'
    rw [List.length_append] at hall
    simpa using hall

end Token.Inlaid

namespace CursorM

variable {cursor later : Cursor} {function : Function}

/-- The brace of a lambda that has been read, and its body behind that. -/
theorem inlaid_of_lambda (hend : cursor.Terminated) (h : lambda cursor = .ok function later) :
    (∃ brace, cursor.tokens[cursor.braceIndex]? = some brace ∧ brace.kind = .opening .curly) ∧
      Token.Inlaid cursor.tokens function.body (cursor.braceIndex + 1) ∧
      function.startLine = lineOf cursor.tokens (cursor.braceIndex + 1) := by
  obtain ⟨htokens, hnames, hbrace, -, hclose, -, -⟩ := declares_of_lambda hend (encloses_lambda h).1 h
  rename_i head inner breaks following brace close next parameters names
  have hhead : ∀ token ∈ head, token.kind ≠ .opening .curly := by
    intro token hmem
    by_cases hnewline : token.kind = .newline
    · simp [hnewline]
    · exact hnames.ne_opening token (List.mem_filter.2 ⟨hmem, by simpa using hnewline⟩)
  have hindex := Cursor.braceIndex_eq htokens hhead hbrace
  have hfront : (cursor.before.reverse ++ head).length = cursor.braceIndex := by
    rw [hindex, List.length_append, List.length_reverse]
    rfl
  have htokens : cursor.tokens =
      (cursor.before.reverse ++ head) ++ brace :: (inner ++ close :: (breaks ++ next :: following)) := by
    rw [Cursor.tokens, htokens, List.append_assoc]
  generalize cursor.before.reverse ++ head = front at hfront htokens
  refine ⟨⟨brace, ?_, hbrace⟩, ?_, ?_⟩
  · rw [htokens, ← hfront, List.getElem?_append_right (Nat.le_refl _), Nat.sub_self]
    rfl
  · have hinlaid := @Token.Inlaid.mk (front ++ [brace]) inner (breaks ++ next :: following) close hclose
    rw [List.append_assoc _ [brace], List.length_append, hfront, List.singleton_append, ← htokens] at hinlaid
    exact hinlaid
  · -- The brace itself is no line break, so the body starts on its line.
    show lineOf cursor.tokens (cursor.position + head.length) = _
    rw [← hindex, lineOf, lineOf, htokens, ← hfront, List.take_left, List.take_length_add_append, List.take_succ_cons,
      List.take_zero, List.countP_append, List.countP_singleton, hbrace]
    rfl

end CursorM

/-! ## Nested bodies -/

/-- Lambdas of which each is declared in the body of the one before and the first in the tokens: the functions, where
the body of the last starts in the tokens, and this body. -/
inductive Nesting : List Token → List Function → Nat → List Token → Prop where
  | single {cursor later : Cursor} {function : Function} : CursorM.lambda cursor = .ok function later →
      Nesting cursor.tokens [function] (cursor.braceIndex + 1) function.body
  | inside {cursor later : Cursor} {function : Function} {functions : List Function} {start : Nat} {body : List Token} :
      CursorM.lambda cursor = .ok function later → Nesting function.body functions start body →
      Nesting cursor.tokens (function :: functions) (cursor.braceIndex + 1 + start) body

/-- The sum of the lines where the functions start. -/
def Function.startLines (functions : List Function) : Nat :=
  (functions.map (·.startLine)).sum

theorem Nesting.inlaid {tokens body : List Token} {functions : List Function} {start : Nat}
    (h : Nesting tokens functions start body) (hend : Token.Terminated tokens) :
    Token.Inlaid tokens body start ∧ Function.startLines functions = lineOf tokens start := by
  induction h with
  | single hlambda =>
    obtain ⟨-, hinlaid, hstart⟩ := CursorM.inlaid_of_lambda hend hlambda
    refine ⟨hinlaid, ?_⟩
    simpa [Function.startLines] using hstart
  | @inside cursor later function functions start body hlambda _ ih =>
    obtain ⟨-, houter, hstart⟩ := CursorM.inlaid_of_lambda hend hlambda
    obtain ⟨hinner, hlines⟩ := ih houter.terminated
    refine ⟨houter.trans hinner, ?_⟩
    calc Function.startLines (function :: functions)
        = function.startLine + Function.startLines functions := by simp [Function.startLines]
      _ = lineOf function.body start + lineOf cursor.tokens (cursor.braceIndex + 1) := by
        rw [hlines, hstart, Nat.add_comm]
      _ = lineOf cursor.tokens (cursor.braceIndex + 1 + start) := houter.lineOf_add hinner.lt_length

/-! ## Calls -/

/-- The body of the function fails: with the error, or with what a call of the first of the others fails with, the body
of which fails in the same way. -/
inductive Function.FailsThrough (error : Error) : Executor → Function → List Function → List Item → Context → Prop where
  | here {executor : Executor} {function : Function} {arguments : List Item} {context reached : Context} :
      function.Admitted arguments context →
      executor.answer (function.bodyRun arguments context) = .error (.error error) reached →
      FailsThrough error executor function [] arguments context
  | deeper {executor inner : Executor} {function callee : Function} {callees : List Function}
      {arguments items : List Item} {context within after reached : Context} {failure : Failure} :
      function.Admitted arguments context → FailsThrough error inner callee callees items within →
      callee.invoke inner items within = .error failure after →
      executor.answer (function.bodyRun arguments context) = .error failure reached →
      FailsThrough error executor function (callee :: callees) arguments context

/-- Each call moves the error down to where its function starts. -/
theorem Function.FailsThrough.invoke {error : Error} {executor : Executor} {function : Function}
    {callees : List Function} {arguments : List Item} {context : Context}
    (h : function.FailsThrough error executor callees arguments context) :
    ∃ after, function.invoke executor arguments context =
      .error (.error ⟨error.kind, error.line + startLines (function :: callees)⟩) after := by
  induction h with
  | @here executor function arguments context reached hadmitted hanswer =>
    refine ⟨{ reached with callDepth := reached.callDepth - 1 }, ?_⟩
    rw [invoke_of_admitted hadmitted, hanswer]
    simp [finish, rebase, Error.rebase, startLines]
  | @deeper executor inner function callee callees arguments items context within after reached failure hadmitted _
      hinvoke hanswer ih =>
    obtain ⟨after', hcallee⟩ := ih
    obtain ⟨rfl, -⟩ := EStateM.Result.error.inj (hinvoke.symm.trans hcallee)
    refine ⟨{ reached with callDepth := reached.callDepth - 1 }, ?_⟩
    rw [invoke_of_admitted hadmitted, hanswer]
    simp [finish, rebase, Error.rebase, startLines, Nat.add_comm, Nat.add_left_comm]

/-- The lines of a body and of bodies nested in it, moved down to where their functions start, are the lines of the same
tokens in the tokens around all of them. That is where calls report an error that comes through the functions. -/
theorem body_lines :
    (∀ {cursor later : Cursor} {function : Function}, cursor.Terminated → CursorM.lambda cursor = .ok function later →
      (∃ brace, cursor.tokens[cursor.braceIndex]? = some brace ∧ brace.kind = .opening .curly) ∧
        Token.Inlaid cursor.tokens function.body (cursor.braceIndex + 1) ∧
        ∀ index < function.body.length,
          lineOf function.body index + function.startLine = lineOf cursor.tokens (cursor.braceIndex + 1 + index)) ∧
    ∀ {tokens body : List Token} {function : Function} {callees : List Function} {start : Nat},
      Token.Terminated tokens → Nesting tokens (function :: callees) start body →
      Token.Inlaid tokens body start ∧
        ∀ index < body.length,
          lineOf body index + Function.startLines (function :: callees) = lineOf tokens (start + index) ∧
          ∀ (executor : Executor) (kind : ErrorKind) (arguments : List Item) (context : Context),
            function.FailsThrough ⟨kind, lineOf body index⟩ executor callees arguments context →
            ∃ after, function.invoke executor arguments context =
              .error (.error ⟨kind, lineOf tokens (start + index)⟩) after := by
  refine ⟨fun hend h => ?_, fun hend h => ?_⟩
  · obtain ⟨hbrace, hinlaid, hstart⟩ := CursorM.inlaid_of_lambda hend h
    refine ⟨hbrace, hinlaid, fun index hindex => ?_⟩
    rw [hstart, hinlaid.lineOf_add hindex]
  · obtain ⟨hinlaid, hlines⟩ := h.inlaid hend
    refine ⟨hinlaid, fun index hindex => ?_⟩
    have hline := hinlaid.lineOf_add hindex
    rw [← hlines] at hline
    refine ⟨hline, fun executor kind arguments context hfails => ?_⟩
    rw [← hline]
    exact hfails.invoke

/-- A function that divides by zero on its second line. -/
def innerFailure : Function where
  parameters := []
  body := [⟨.newline, "\n", .null⟩, ⟨.keyword, "return", .null⟩, ⟨.int, "1", .null⟩, ⟨.operator, "/", .null⟩,
    ⟨.int, "0", .null⟩, Token.eof]
  returnTypes := .any
  startLine := 1
  mark := none

/-- A function that declares that one on its second line and calls it. -/
def outerFailure : Function where
  parameters := []
  body := [⟨.newline, "\n", .null⟩, ⟨.keyword, "let", .null⟩, ⟨.name, "g", .null⟩, ⟨.assignment, "=", .null⟩,
    ⟨.keyword, "lambda", .null⟩, ⟨.opening .round, "(", .null⟩, ⟨.closing .round, ")", .null⟩,
    ⟨.opening .curly, "\x7b", .null⟩, ⟨.newline, "\n", .null⟩, ⟨.keyword, "return", .null⟩, ⟨.int, "1", .null⟩,
    ⟨.operator, "/", .null⟩, ⟨.int, "0", .null⟩, ⟨.closing .curly, "\x7d", .null⟩, ⟨.newline, "\n", .null⟩,
    ⟨.name, "g", .null⟩, ⟨.opening .round, "(", .null⟩, ⟨.closing .round, ")", .null⟩, Token.eof]
  returnTypes := .any
  startLine := 2
  mark := none

/-- The tokens of the outer function, on the third line. -/
def failureDeclaration : Cursor where
  before := [⟨.newline, "\n", .null⟩, ⟨.newline, "\n", .null⟩]
  current := ⟨.keyword, "lambda", .null⟩
  rest := [⟨.opening .round, "(", .null⟩, ⟨.closing .round, ")", .null⟩, ⟨.opening .curly, "\x7b", .null⟩] ++
    outerFailure.body.dropLast ++ [⟨.closing .curly, "\x7d", .null⟩, ⟨.newline, "\n", .null⟩, Token.eof]

theorem nesting_failureDeclaration :
    Nesting failureDeclaration.tokens [outerFailure, innerFailure] 14 innerFailure.body := by
  have houter : ∃ later, CursorM.lambda failureDeclaration = .ok outerFailure later := ⟨_, rfl⟩
  let place : Cursor := ⟨(outerFailure.body.take 4).reverse, ⟨.keyword, "lambda", .null⟩, outerFailure.body.drop 5⟩
  have hinner : ∃ later, CursorM.lambda place = .ok innerFailure later := ⟨_, rfl⟩
  obtain ⟨later, houter⟩ := houter
  obtain ⟨after, hinner⟩ := hinner
  exact .inside houter (.single hinner)

/-- The error is on the second line of the inner function, which starts on the second line of the outer one. -/
theorem body_lines_failure :
    Token.Terminated failureDeclaration.tokens ∧
      outerFailure.FailsThrough ⟨.zeroDivision, 1⟩ (Executor.block 2) [innerFailure] [] default ∧
      ∃ after, outerFailure.invoke (Executor.block 2) [] default = .error (.error ⟨.zeroDivision, 4⟩) after := by
  have hend : Token.Terminated failureDeclaration.tokens := by decide
  have hinner : (Executor.block 1).answer (innerFailure.bodyRun [] default) =
      .error (.error ⟨.zeroDivision, 1⟩) { (default : Context) with callDepth := 1 } :=
    Comparable.eq_of_same (by decide +kernel)
  have hcall : innerFailure.invoke (Executor.block 1) [] default = .error (.error ⟨.zeroDivision, 2⟩) default :=
    Comparable.eq_of_same (by decide +kernel)
  have houter : (Executor.block 2).answer (outerFailure.bodyRun [] default) =
      .error (.error ⟨.zeroDivision, 2⟩) { (default : Context) with callDepth := 1 } :=
    Comparable.eq_of_same (by decide +kernel)
  have hfails : outerFailure.FailsThrough ⟨.zeroDivision, 1⟩ (Executor.block 2) [innerFailure] [] default :=
    .deeper ⟨.nil, by decide⟩ (.here ⟨.nil, by decide⟩ hinner) hcall houter
  have hline : lineOf failureDeclaration.tokens (14 + 3) = 4 := by decide
  have hreport := (body_lines.2 hend nesting_failureDeclaration).2 3 (by decide)
  rw [hline] at hreport
  exact ⟨hend, hfails, hreport.2 (Executor.block 2) .zeroDivision [] default hfails⟩

end GradualScript
