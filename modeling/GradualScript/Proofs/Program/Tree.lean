import GradualScript.Context
import GradualScript.Proofs.OperatorTree.Basic

/-!
# Programs as trees

* `Face`, `Token.face` : what a token says, wherever it stands in a text;
* `Term`, `Phrase` : expressions; an assignment or a ternary is an operand only in parentheses;
* `Statement`, `Block` : statements and lists of them, each with what ends it;
* `Term.faces`, `Block.faces`, … : how a tree is written;
* `Term.Valid`, `Block.Valid`, … : parentheses stand where operators need them, what is called is registered, and
  statements end where they have to; whether they do can be decided.
-/

set_option autoImplicit false

namespace GradualScript

/-! ## What tokens say -/

/-- The kinds whose tokens differ in their texts. -/
def TokenKind.isSpelled : TokenKind → Bool
  | name | keyword | operator | int | float | string | char | bool => true
  | _ => false

/-- A kind, and a text if the kind leaves that open. -/
structure Face where
  kind : TokenKind
  text : String
deriving DecidableEq

/-- What a token says. -/
def Token.face (token : Token) : Face :=
  ⟨token.kind, if token.kind.isSpelled then token.text else ""⟩

namespace Face

/-- A token whose kind says all. -/
def mark (kind : TokenKind) : Face := ⟨kind, ""⟩

def word (text : String) : Face := ⟨.keyword, text⟩

def name (text : String) : Face := ⟨.name, text⟩

def operator (op : Operator) : Face := ⟨.operator, op.symbol⟩

end Face

theorem Token.kind_of_face {token : Token} {face : Face} (h : token.face = face) : token.kind = face.kind :=
  congrArg Face.kind h

theorem Token.text_of_face {token : Token} {face : Face} (h : token.face = face)
    (hspelled : face.kind.isSpelled = true) : token.text = face.text := by
  subst h
  change token.kind.isSpelled = true at hspelled
  rw [face, hspelled]
  rfl

/-- Which keyword a token is. -/
theorem Token.isKeywordOf_word {token : Token} {word : String} (h : token.face = .word word) (other : String) :
    token.isKeywordOf other = decide (word = other) := by
  have hkind : token.kind = .keyword := kind_of_face h
  have htext : token.text = word := text_of_face h rfl
  rw [isKeywordOf, hkind, htext, decide_eq_true rfl, Bool.true_and]

theorem Token.isKeywordOf_of_face {token : Token} {word : String} (h : token.face = .word word) :
    token.isKeywordOf word = true := by
  rw [isKeywordOf_word h, decide_eq_true rfl]

/-! ## Expressions -/

/-- The token of a literal. -/
structure Literal where
  kind : TokenKind
  text : String
  isLiteral : kind.isLiteral = true

theorem Literal.isSpelled (literal : Literal) : literal.kind.isSpelled = true := by
  obtain ⟨kind, text, hliteral⟩ := literal
  change kind.isSpelled = true
  cases kind <;> first | rfl | cases hliteral

mutual

/-- What operators are applied to, and what they make. -/
inductive Term where
  | literal (literal : Literal)
  | name (name : String)
  | call (function : String) (arguments : List Phrase)
  | paren (inner : Phrase)
  | unary (op : Operator) (operand : Term)
  | binary (op : Operator) (left right : Term)

/-- An expression: a term, `name = value`, or `if (condition) value else value`. -/
inductive Phrase where
  | term (term : Term)
  | assignment (name : String) (value : Phrase)
  | ternary (condition positive negative : Phrase)

end

/-- The operator at the root, if it is not shut in by parentheses. -/
def Term.root? : Term → Option Operator
  | literal _ | name _ | call _ _ | paren _ => none
  | unary op _ | binary op _ _ => some op

mutual

/-- How a term is written. -/
def Term.faces : Term → List Face
  | .literal literal => [⟨literal.kind, literal.text⟩]
  | .name name => [.name name]
  | .call function arguments =>
    .name function :: .mark (.opening .round) :: (argumentFaces arguments ++ [.mark (.closing .round)])
  | .paren inner => .mark (.opening .round) :: (inner.faces ++ [.mark (.closing .round)])
  | .unary op operand => .operator op :: operand.faces
  | .binary op left right => left.faces ++ .operator op :: right.faces

/-- How an expression is written. -/
def Phrase.faces : Phrase → List Face
  | .term term => term.faces
  | .assignment name value => .name name :: .mark .assignment :: value.faces
  | .ternary condition positive negative =>
    .word "if" :: .mark (.opening .round) :: (condition.faces ++ .mark (.closing .round) ::
      (positive.faces ++ .word "else" :: negative.faces))

/-- Arguments with commas between them. -/
def argumentFaces : List Phrase → List Face
  | [] => []
  | [last] => last.faces
  | first :: second :: rest => first.faces ++ .mark .comma :: argumentFaces (second :: rest)

end

mutual

/-- Every operator has the operands that it takes, and what is called is registered. -/
def Term.Valid (registry : Registry) : Term → Prop
  | .literal _ | .name _ => True
  | .call function arguments => registry.hasFunction function = true ∧ argumentsValid registry arguments
  | .paren inner => inner.Valid registry
  | .unary op operand =>
    op.isUnary = true ∧ Operator.takesOperand operand.root? = true ∧ operand.Valid registry
  | .binary op left right =>
    op.isUnary = false ∧ op.takesLeft left.root? = true ∧ op.takesRight right.root? = true ∧
      left.Valid registry ∧ right.Valid registry

def Phrase.Valid (registry : Registry) : Phrase → Prop
  | .term term => term.Valid registry
  | .assignment _ value => value.Valid registry
  | .ternary condition positive negative =>
    condition.Valid registry ∧ positive.Valid registry ∧ negative.Valid registry

def argumentsValid (registry : Registry) : List Phrase → Prop
  | [] => True
  | first :: rest => first.Valid registry ∧ argumentsValid registry rest

end

mutual

def Term.decidableValid (registry : Registry) : (term : Term) → Decidable (term.Valid registry)
  | .literal _ | .name _ => inferInstanceAs (Decidable True)
  | .call _ arguments =>
    have := decidableArgumentsValid registry arguments
    inferInstanceAs (Decidable (_ ∧ argumentsValid registry arguments))
  | .paren inner => inner.decidableValid registry
  | .unary _ operand =>
    have := operand.decidableValid registry
    inferInstanceAs (Decidable (_ ∧ _ ∧ operand.Valid registry))
  | .binary _ left right =>
    have := left.decidableValid registry
    have := right.decidableValid registry
    inferInstanceAs (Decidable (_ ∧ _ ∧ _ ∧ left.Valid registry ∧ right.Valid registry))

def Phrase.decidableValid (registry : Registry) : (phrase : Phrase) → Decidable (phrase.Valid registry)
  | .term term => term.decidableValid registry
  | .assignment _ value => value.decidableValid registry
  | .ternary condition positive negative =>
    have := condition.decidableValid registry
    have := positive.decidableValid registry
    have := negative.decidableValid registry
    inferInstanceAs (Decidable (condition.Valid registry ∧ positive.Valid registry ∧ negative.Valid registry))

def decidableArgumentsValid (registry : Registry) : (arguments : List Phrase) →
    Decidable (argumentsValid registry arguments)
  | [] => inferInstanceAs (Decidable True)
  | first :: rest =>
    have := first.decidableValid registry
    have := decidableArgumentsValid registry rest
    inferInstanceAs (Decidable (first.Valid registry ∧ argumentsValid registry rest))

end

/-! ## Statements -/

/-- What stands behind a statement. -/
inductive Ending where
  | newline
  | semicolon
  | nothing
deriving DecidableEq

def Ending.faces : Ending → List Face
  | newline => [.mark .newline]
  | semicolon => [.mark .semicolon]
  | nothing => []

mutual

inductive Statement where
  /-- `let name [: type] = value`, or `const` if it is not mutable. -/
  | declaration (isMutable : Bool) (name : String) (type? : Option String) (value : Phrase)
  /-- `return [value]`. -/
  | exit (value? : Option Phrase)
  | block (body : Block)
  | expression (value : Phrase)

inductive Block where
  | nil
  | cons (statement : Statement) (ending : Ending) (rest : Block)

end

def Block.isEmpty : Block → Bool
  | nil => true
  | cons _ _ _ => false

/-- A `return` that nothing stands behind. -/
def Statement.isBareExit : Statement → Bool
  | exit none => true
  | _ => false

mutual

/-- How a statement is written. -/
def Statement.faces : Statement → List Face
  | .declaration isMutable name type? value =>
    .word (if isMutable then "let" else "const") :: .name name :: ((match type? with
      | some type => [.mark .colon, .name type]
      | none => []) ++ .mark .assignment :: value.faces)
  | .exit (some value) => .word "return" :: value.faces
  | .exit none => [.word "return"]
  | .block body => .mark (.opening .curly) :: (body.faces ++ [.mark (.closing .curly)])
  | .expression value => value.faces

/-- How statements are written, one behind the other. -/
def Block.faces : Block → List Face
  | .nil => []
  | .cons statement ending rest => statement.faces ++ (ending.faces ++ rest.faces)

end

mutual

def Statement.Valid (registry : Registry) : Statement → Prop
  | .declaration _ _ _ value => value.Valid registry
  | .exit (some value) => value.Valid registry
  | .exit none => True
  | .block body => body.Valid registry
  | .expression value => value.Valid registry

/-- Only the last statement may do without an ending, and no line break ends a bare `return`. -/
def Block.Valid (registry : Registry) : Block → Prop
  | .nil => True
  | .cons statement ending rest =>
    statement.Valid registry ∧ (ending = .nothing → rest.isEmpty = true) ∧
      (statement.isBareExit = true → ending ≠ .newline) ∧ rest.Valid registry

end

mutual

def Statement.decidableValid (registry : Registry) : (statement : Statement) → Decidable (statement.Valid registry)
  | .declaration _ _ _ value => value.decidableValid registry
  | .exit (some value) => value.decidableValid registry
  | .exit none => inferInstanceAs (Decidable True)
  | .block body => body.decidableValid registry
  | .expression value => value.decidableValid registry

def Block.decidableValid (registry : Registry) : (block : Block) → Decidable (block.Valid registry)
  | .nil => inferInstanceAs (Decidable True)
  | .cons statement _ rest =>
    have := statement.decidableValid registry
    have := rest.decidableValid registry
    inferInstanceAs (Decidable (statement.Valid registry ∧ (_ → _) ∧ (_ → _ ≠ _) ∧ rest.Valid registry))

end

instance Block.decidablePredValid (registry : Registry) : DecidablePred (Block.Valid registry) :=
  Block.decidableValid registry

end GradualScript
