import GradualScript.Expression.Calculate

/-!
# Operator trees

An expression in infix order stands for a tree: a value, a tree in parentheses, or an operator on one or two trees.

* `Operator.takesLeft`, `Operator.takesRight`, `Operator.takesOperand` : the trees that an operator takes without
  parentheses, told by the operator at their root;
* `OperatorTree.Grouped` : every operator of a tree has operands that it takes;
* `OperatorTree.written`, `OperatorTree.postOrder` : a tree in infix order and in postfix order;
* `OperatorTree.eval` : the value of a tree, operands before their operator and the left one first;
* `run_postOrder` : the stack machine leaves the value of a tree on its stack.
-/

set_option autoImplicit false

namespace GradualScript

namespace Operator

/-- The left operand: none in parentheses is needed when it binds at least as tightly. A power takes no operator
there. -/
def takesLeft (op : Operator) : Option Operator → Bool
  | none => true
  | some root => op.isLeftAssociative && op.priority.level ≤ root.priority.level

/-- The right operand, which has to bind more tightly. A power takes a unary operator or a power there. -/
def takesRight (op : Operator) : Option Operator → Bool
  | none => true
  | some root =>
    if op.isLeftAssociative then op.priority.level < root.priority.level else root.isUnary || root = power

/-- The operand of a unary operator. -/
def takesOperand : Option Operator → Bool
  | none => true
  | some root => root.isUnary || root = power

/-! ## Levels -/

@[simp] theorem level_power : power.priority.level = 7 := rfl

theorem level_of_isUnary {op : Operator} (h : op.isUnary = true) : op.priority.level = 6 := by
  cases op <;> first | rfl | cases h

theorem level_le_of_isLeftAssociative {op : Operator} (h : op.isUnary = false)
    (hl : op.isLeftAssociative = true) : op.priority.level ≤ 5 := by
  cases op <;> first | decide | exact absurd hl (by decide) | cases h

theorem isLeftAssociative_eq_false_iff {op : Operator} : op.isLeftAssociative = false ↔ op = power := by
  simp [isLeftAssociative]

theorem level_le_seven (op : Operator) : op.priority.level ≤ 7 := by
  cases op <;> decide

/-- Operators on the right of a power and behind a unary operator bind at least as tightly as a unary one. -/
theorem six_le_level_of_takesOperand (root : Operator) (h : takesOperand (some root) = true) :
    6 ≤ root.priority.level := by
  cases root <;> first | decide | cases h

/-- A binary operator has no meaning on a single operand. -/
theorem applyUnary_of_not_isUnary {op : Operator} (h : op.isUnary = false) (operand : Item) :
    ∃ kind, op.applyUnary operand = .error kind := by
  cases operand <;> cases op <;> first | exact ⟨_, rfl⟩ | cases h

end Operator

/-- An expression as a tree. -/
inductive OperatorTree where
  | value (item : Item)
  | paren (inner : OperatorTree)
  | unary (op : Operator) (operand : OperatorTree)
  | binary (op : Operator) (left right : OperatorTree)

namespace OperatorTree

/-- The operator at the root, if it is not shut in by parentheses. -/
def root? : OperatorTree → Option Operator
  | value _ | paren _ => none
  | unary op _ | binary op _ _ => some op

/-- Every operator has the operands that it takes, so that parentheses stand wherever they are needed. -/
def Grouped : OperatorTree → Prop
  | value _ => True
  | paren inner => inner.Grouped
  | unary op operand => op.isUnary = true ∧ Operator.takesOperand operand.root? = true ∧ operand.Grouped
  | binary op left right =>
    op.isUnary = false ∧ op.takesLeft left.root? = true ∧ op.takesRight right.root? = true ∧ left.Grouped ∧
      right.Grouped

instance decidableGrouped : DecidablePred Grouped
  | value _ => inferInstanceAs (Decidable True)
  | paren inner => decidableGrouped inner
  | unary op operand =>
    have := decidableGrouped operand
    inferInstanceAs (Decidable (op.isUnary = true ∧ Operator.takesOperand operand.root? = true ∧ operand.Grouped))
  | binary op left right =>
    have := decidableGrouped left
    have := decidableGrouped right
    inferInstanceAs (Decidable (op.isUnary = false ∧ op.takesLeft left.root? = true ∧
      op.takesRight right.root? = true ∧ left.Grouped ∧ right.Grouped))

/-- The tree in infix order. -/
def written : OperatorTree → List Element
  | value item => [.value item]
  | paren inner => .openParen :: (inner.written ++ [.closeParen])
  | unary op operand => .operator op :: operand.written
  | binary op left right => left.written ++ .operator op :: right.written

/-- The tree in postfix order. -/
def postOrder : OperatorTree → List Instruction
  | value item => [.push item]
  | paren inner => inner.postOrder
  | unary op operand => operand.postOrder ++ [.apply op]
  | binary op left right => left.postOrder ++ (right.postOrder ++ [.apply op])

/-- The value of the tree, or the first error on the way to it. -/
def eval : OperatorTree → Except ErrorKind Item
  | value item => .ok item
  | paren inner => inner.eval
  | unary op operand => do op.applyUnary (← operand.eval)
  | binary op left right => do
    let x ← left.eval
    let y ← right.eval
    op.apply x y

/-! ## The stack machine -/

theorem step_unary {op : Operator} (h : op.isUnary = true) (item : Item) (stack : List Item) :
    Instruction.step (item :: stack) (.apply op) = (op.applyUnary item).map (· :: stack) := by
  cases stack with
  | nil =>
    rw [Instruction.step]
    cases op.applyUnary item <;> rfl
  | cons left rest =>
    rw [Instruction.step, if_pos h]
    cases op.applyUnary item <;> rfl

theorem step_binary {op : Operator} (h : op.isUnary = false) (right left : Item) (stack : List Item) :
    Instruction.step (right :: left :: stack) (.apply op) = (op.apply left right).map (· :: stack) := by
  rw [Instruction.step, h]
  cases op.apply left right <;> rfl

/-- The machine puts the value of a tree on its stack and goes on, or stops with the error of the tree. -/
theorem run_postOrder (t : OperatorTree) (h : t.Grouped) (stack : List Item) (rest : List Instruction) :
    Instruction.run stack (t.postOrder ++ rest) = t.eval >>= fun item => Instruction.run (item :: stack) rest := by
  induction t generalizing stack rest with
  | value item => rfl
  | paren inner ih => exact ih h stack rest
  | unary op operand ih =>
    obtain ⟨hop, -, hoperand⟩ := h
    rw [postOrder, List.append_assoc, ih hoperand, eval]
    cases operand.eval with
    | error kind => rfl
    | ok x =>
      change Instruction.run (x :: stack) (.apply op :: rest) =
        op.applyUnary x >>= fun item => Instruction.run (item :: stack) rest
      rw [Instruction.run, step_unary hop]
      cases op.applyUnary x <;> rfl
  | binary op left right ihl ihr =>
    obtain ⟨hop, -, -, hleft, hright⟩ := h
    rw [postOrder, List.append_assoc, List.append_assoc, ihl hleft, eval]
    cases left.eval with
    | error kind => rfl
    | ok x =>
      change Instruction.run (x :: stack) (right.postOrder ++ (.apply op :: rest)) = _
      rw [ihr hright]
      cases right.eval with
      | error kind => rfl
      | ok y =>
        change Instruction.run (y :: x :: stack) (.apply op :: rest) =
          op.apply x y >>= fun item => Instruction.run (item :: stack) rest
        rw [Instruction.run, step_binary hop]
        cases op.apply x y <;> rfl

end OperatorTree

end GradualScript
