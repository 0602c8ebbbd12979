import GradualScript.Proofs.Lambda.Grammar
import GradualScript.Proofs.Program.Edges

/-!
# Tokens of expressions

* `Token.Balanced` : tokens in which the brackets of a shape open and close in pairs;
* `LambdaTokens` : the tokens of a lambda, a head as in `HeadsLambda` and a body that is not looked into but for its
  brackets;
* `Spelled` : the tokens of operands, expressions and arguments, all without line breaks outside of bodies;
* `Laid` : the same tokens, with ternaries and assignments only at the end of an expression (`Spelled.laid`): they take
  in all that stands behind them;
* `Laid.started`, `Laid.ended` : the first and the last token.
-/

set_option autoImplicit false

namespace GradualScript

open Cursor

/-! ## Brackets -/

/-- How many brackets of the shape are open behind the tokens, if `depth` were before them and none of those is
closed. -/
def Token.depthBehind? (shape : Bracket) : Nat → List Token → Option Nat
  | depth, [] => some depth
  | depth, token :: rest =>
    if token.kind = .opening shape then depthBehind? shape (depth + 1) rest
    else if token.kind = .closing shape then
      match depth with
      | 0 => none
      | depth + 1 => depthBehind? shape depth rest
    else depthBehind? shape depth rest

theorem Token.depthBehind?_cons (shape : Bracket) (depth : Nat) (token : Token) (rest : List Token) :
    depthBehind? shape depth (token :: rest) =
      if token.kind = .opening shape then depthBehind? shape (depth + 1) rest
      else if token.kind = .closing shape then
        match depth with
        | 0 => none
        | depth + 1 => depthBehind? shape depth rest
      else depthBehind? shape depth rest := by
  rw [depthBehind?.eq_def]

/-- The brackets of the shape open and close in pairs. -/
def Token.Balanced (shape : Bracket) (tokens : List Token) : Prop :=
  depthBehind? shape 0 tokens = some 0

/-! ## Lambdas -/

/-- A lambda: its head, and its body in braces. Any tokens can be the body that are balanced in braces and in
parentheses and have no end of input among them. They may have line breaks, which the head has not. -/
inductive LambdaTokens : List Token → Prop where
  | mk {head body : List Token} {brace close : Token} {parameters : List Parameter} {names : List String} :
      HeadsLambda head parameters names → brace.kind = .opening .curly → Token.Balanced .curly body →
      Token.Balanced .round body → (∀ token ∈ body, token.kind ≠ .eof) → close.kind = .closing .curly →
      LambdaTokens (head ++ brace :: (body ++ [close]))

theorem LambdaTokens.exists_keyword {tokens : List Token} (h : LambdaTokens tokens) :
    ∃ keyword rest, tokens = keyword :: rest ∧ keyword.isKeywordOf "lambda" = true := by
  obtain ⟨⟨hkeyword⟩⟩ := h
  exact ⟨_, _, rfl, hkeyword⟩

/-! ## Expressions -/

/-- What some tokens spell. -/
inductive Shape where
  | operand
  | expression
  | arguments
deriving DecidableEq

/-- The token is an operator between two operands. -/
def Token.isBinaryOperator (token : Token) : Bool :=
  token.isOperator && !token.isUnaryOperator

/-- Operands, expressions and arguments. An expression is one or more operands with binary operators between them, and
unary operators before each. -/
inductive Spelled : Shape → List Token → Prop where
  | literal {token : Token} : token.kind.isLiteral = true → Spelled .operand [token]
  | name {token : Token} : token.kind = .name → Spelled .operand [token]
  | this {token : Token} : token.isKeywordOf "this" = true → Spelled .operand [token]
  | group {opening closing : Token} {tokens : List Token} : opening.kind = .opening .round →
      closing.kind = .closing .round → Spelled .expression tokens → Spelled .operand (opening :: (tokens ++ [closing]))
  | call {name opening closing : Token} {tokens : List Token} : name.kind = .name → opening.kind = .opening .round →
      closing.kind = .closing .round → Spelled .arguments tokens →
      Spelled .operand (name :: opening :: (tokens ++ [closing]))
  | ternary {keyword opening closing alternative : Token} {conditions positives negatives : List Token} :
      keyword.isKeywordOf "if" = true → opening.kind = .opening .round → Spelled .expression conditions →
      closing.kind = .closing .round → Spelled .expression positives → alternative.isKeywordOf "else" = true →
      Spelled .expression negatives →
      Spelled .operand (keyword :: opening :: (conditions ++ closing :: (positives ++ alternative :: negatives)))
  | assignment {target sign : Token} {tokens : List Token} : target.kind = .name → sign.kind = .assignment →
      Spelled .expression tokens → Spelled .operand (target :: sign :: tokens)
  | lambda {tokens : List Token} : LambdaTokens tokens → Spelled .operand tokens
  | single {signs tokens : List Token} : (∀ sign ∈ signs, sign.isUnaryOperator = true) → Spelled .operand tokens →
      Spelled .expression (signs ++ tokens)
  | joined {signs tokens others : List Token} {operator : Token} : (∀ sign ∈ signs, sign.isUnaryOperator = true) →
      Spelled .operand tokens → operator.isBinaryOperator = true → Spelled .expression others →
      Spelled .expression (signs ++ (tokens ++ operator :: others))
  | none : Spelled .arguments []
  | last {tokens : List Token} : Spelled .expression tokens → Spelled .arguments tokens
  | more {tokens others : List Token} {comma : Token} : Spelled .expression tokens → comma.kind = .comma →
      Spelled .arguments others → others ≠ [] → Spelled .arguments (tokens ++ comma :: others)

/-- Operands that end by themselves, and expressions as they are read from the left: a ternary or an assignment is the
last part of its expression. -/
inductive Laid : Shape → List Token → Prop where
  | literal {token : Token} : token.kind.isLiteral = true → Laid .operand [token]
  | name {token : Token} : token.kind = .name → Laid .operand [token]
  | this {token : Token} : token.isKeywordOf "this" = true → Laid .operand [token]
  | group {opening closing : Token} {tokens : List Token} : opening.kind = .opening .round →
      closing.kind = .closing .round → Laid .expression tokens → Laid .operand (opening :: (tokens ++ [closing]))
  | call {name opening closing : Token} {tokens : List Token} : name.kind = .name → opening.kind = .opening .round →
      closing.kind = .closing .round → Laid .arguments tokens → Laid .operand (name :: opening :: (tokens ++ [closing]))
  | lambda {tokens : List Token} : LambdaTokens tokens → Laid .operand tokens
  | alone {tokens : List Token} : Laid .operand tokens → Laid .expression tokens
  | binary {tokens others : List Token} {operator : Token} : Laid .operand tokens →
      operator.isBinaryOperator = true → Laid .expression others → Laid .expression (tokens ++ operator :: others)
  | unary {sign : Token} {tokens : List Token} : sign.isUnaryOperator = true → Laid .expression tokens →
      Laid .expression (sign :: tokens)
  | ternary {keyword opening closing alternative : Token} {conditions positives negatives : List Token} :
      keyword.isKeywordOf "if" = true → opening.kind = .opening .round → Laid .expression conditions →
      closing.kind = .closing .round → Laid .expression positives → alternative.isKeywordOf "else" = true →
      Laid .expression negatives →
      Laid .expression (keyword :: opening :: (conditions ++ closing :: (positives ++ alternative :: negatives)))
  | assignment {target sign : Token} {tokens : List Token} : target.kind = .name → sign.kind = .assignment →
      Laid .expression tokens → Laid .expression (target :: sign :: tokens)
  | none : Laid .arguments []
  | last {tokens : List Token} : Laid .expression tokens → Laid .arguments tokens
  | more {tokens others : List Token} {comma : Token} : Laid .expression tokens → comma.kind = .comma →
      Laid .arguments others → others ≠ [] → Laid .arguments (tokens ++ comma :: others)

namespace Laid

variable {shape : Shape} {tokens others : List Token} {token operator : Token}

/-- An expression goes on behind an operator. A ternary or an assignment at its end takes in what follows. -/
theorem join (h : Laid .expression tokens) (hoperator : operator.isBinaryOperator = true)
    (h' : Laid .expression others) : Laid .expression (tokens ++ operator :: others) := by
  generalize hshape : Shape.expression = shape at h
  induction h with
  | alone hoperand => exact .binary hoperand hoperator h'
  | binary hoperand hbinary _ _ ih =>
    rw [List.append_assoc]
    exact .binary hoperand hbinary (ih hshape)
  | unary hsign _ ih => exact .unary hsign (ih hshape)
  | ternary hkeyword hopening hconditions hclosing hpositives halternative _ _ _ ih =>
    have htokens := Laid.ternary hkeyword hopening hconditions hclosing hpositives halternative (ih hshape)
    simpa using htokens
  | assignment htarget hsign _ ih => exact .assignment htarget hsign (ih hshape)
  | _ => cases hshape

theorem signed {signs : List Token} (hsigns : ∀ sign ∈ signs, sign.isUnaryOperator = true)
    (h : Laid .expression tokens) : Laid .expression (signs ++ tokens) := by
  induction signs with
  | nil => exact h
  | cons sign signs ih =>
    exact .unary (hsigns sign (by simp)) (ih fun sign hsign => hsigns sign (List.mem_cons_of_mem _ hsign))

end Laid

/-- Tokens of an operand make up an expression of their own. -/
theorem Spelled.laid {shape : Shape} {tokens : List Token} (h : Spelled shape tokens) :
    Laid (match shape with | .arguments => .arguments | _ => .expression) tokens := by
  induction h with
  | literal hkind => exact .alone (.literal hkind)
  | name hkind => exact .alone (.name hkind)
  | this hkeyword => exact .alone (.this hkeyword)
  | group hopening hclosing _ ih => exact .alone (.group hopening hclosing ih)
  | call hname hopening hclosing _ ih => exact .alone (.call hname hopening hclosing ih)
  | ternary hkeyword hopening _ hclosing _ halternative _ hconditions hpositives hnegatives =>
    exact .ternary hkeyword hopening hconditions hclosing hpositives halternative hnegatives
  | assignment htarget hsign _ ih => exact .assignment htarget hsign ih
  | lambda hlambda => exact .alone (.lambda hlambda)
  | single hsigns _ ih => exact Laid.signed hsigns ih
  | joined hsigns _ hoperator _ ih ih' => exact Laid.signed hsigns (Laid.join ih hoperator ih')
  | none => exact .none
  | last _ ih => exact .last ih
  | more _ hcomma _ hne ih ih' => exact .more ih hcomma ih' hne

/-! ## First and last tokens -/

namespace Laid

variable {shape : Shape} {tokens others : List Token} {token operator : Token}

theorem started_of_object (h : token.kind.isObject = true) (rest : List Token) : Started (token :: rest) := by
  refine ⟨token, rest, rfl, startsOperand_of_isObject h, fun hkind => ?_⟩
  rw [hkind] at h
  cases h

theorem started_of_keyword {word : String} (h : token.isKeywordOf word = true) (rest : List Token) :
    Started (token :: rest) :=
  ⟨token, rest, rfl, startsOperand_of_keyword (kind_of_isKeywordOf h), by simp [kind_of_isKeywordOf h]⟩

theorem isObject_of_literal (h : token.kind.isLiteral = true) : token.kind.isObject = true := by
  rw [TokenKind.isObject, h, Bool.or_true]

theorem isObject_of_name (h : token.kind = .name) : token.kind.isObject = true := by
  rw [h]
  rfl

theorem kind_of_unary (h : token.isUnaryOperator = true) : token.kind = .operator := by
  rw [Token.isUnaryOperator, Token.isOperator, Bool.and_eq_true, decide_eq_true_iff] at h
  exact h.1

theorem kind_of_binary (h : token.isBinaryOperator = true) : token.kind = .operator := by
  rw [Token.isBinaryOperator, Token.isOperator, Bool.and_eq_true, decide_eq_true_iff] at h
  exact h.1

/-- An operator between operands starts none. -/
theorem startsOperand_of_binary (h : token.isBinaryOperator = true) : startsOperand token = false := by
  have hkind := kind_of_binary h
  rw [Token.isBinaryOperator, Bool.and_eq_true, Bool.not_eq_true'] at h
  rw [startsOperand, h.2, Token.isKeyword, hkind]
  rfl

/-- The first token of an operand or an expression starts an operand. -/
theorem started (h : Laid shape tokens) (hshape : shape ≠ .arguments) : Started tokens := by
  induction h with
  | literal hkind => exact started_of_object (isObject_of_literal hkind) []
  | name hkind => exact started_of_object (isObject_of_name hkind) []
  | this hkeyword => exact started_of_keyword hkeyword []
  | group hopening _ _ _ =>
    exact ⟨_, _, rfl, by rw [startsOperand, hopening]; rfl, by simp [hopening]⟩
  | call hname _ _ _ _ => exact started_of_object (isObject_of_name hname) _
  | lambda hlambda =>
    obtain ⟨keyword, rest, rfl, hkeyword⟩ := hlambda.exists_keyword
    exact started_of_keyword hkeyword rest
  | alone _ ih => exact ih (by decide)
  | binary _ _ _ ih _ => exact (ih (by decide)).append _
  | unary hsign _ _ =>
    exact ⟨_, _, rfl, by rw [startsOperand, hsign, Bool.or_true], by simp [kind_of_unary hsign]⟩
  | ternary hkeyword => exact started_of_keyword hkeyword _
  | assignment htarget => exact started_of_object (isObject_of_name htarget) _
  | none => exact absurd rfl hshape
  | last => exact absurd rfl hshape
  | more => exact absurd rfl hshape

theorem ended_of_closing {shape : Bracket} (h : token.kind = .closing shape) : Ended [token] :=
  ended_singleton (.inr (by rw [h]; rfl))

/-- The last token of an operand or an expression ends an operand. -/
theorem ended (h : Laid shape tokens) (hshape : shape ≠ .arguments) : Ended tokens := by
  induction h with
  | literal hkind => exact ended_singleton (.inl (isObject_of_literal hkind))
  | name hkind => exact ended_singleton (.inl (isObject_of_name hkind))
  | @this token hkeyword =>
    have hkind := kind_of_isKeywordOf hkeyword
    refine ⟨[], token, rfl, by simp [hkind], ?_⟩
    rw [endsOperand, Token.isKeyword, decide_eq_true hkind, Bool.or_true]
  | group _ hclosing _ _ => exact ((ended_of_closing hclosing).append _).cons _
  | call _ _ hclosing _ _ => exact (((ended_of_closing hclosing).append _).cons _).cons _
  | lambda hlambda =>
    obtain ⟨-, -, -, -, -, hclose⟩ := hlambda
    exact (((ended_of_closing hclose).append _).cons _).append _
  | alone _ ih => exact ih (by decide)
  | binary _ _ _ _ ih => exact ((ih (by decide)).cons _).append _
  | unary _ _ ih => exact (ih (by decide)).cons _
  | ternary _ _ _ _ _ _ _ _ _ ih =>
    exact ((((((ih (by decide)).cons _).append _).cons _).append _).cons _).cons _
  | assignment _ _ _ ih => exact ((ih (by decide)).cons _).cons _
  | none => exact absurd rfl hshape
  | last => exact absurd rfl hshape
  | more => exact absurd rfl hshape

end Laid

end GradualScript
