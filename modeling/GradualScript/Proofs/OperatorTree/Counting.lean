import GradualScript.Proofs.OperatorTree.Postfix

/-!
# Values and operators are conserved

* `convert_conserves` : the converter keeps the values in order and loses no operator;
* `length_run` : the stack machine pushes one value for each value and takes one for each binary operator;
* `items_length_of_value` : an expression has a value only if it has one value more than binary operators.
-/

set_option autoImplicit false

namespace GradualScript

open Postfix (Pending precedes release enter convert)

namespace Element

def item? : Element → Option Item
  | value item => some item
  | _ => none

def operator? : Element → Option Operator
  | operator op => some op
  | _ => none

/-- The values of an expression. -/
def items (elements : List Element) : List Item :=
  elements.filterMap item?

/-- The operators of an expression. -/
def operators (elements : List Element) : List Operator :=
  elements.filterMap operator?

end Element

namespace Instruction

def item? : Instruction → Option Item
  | push item => some item
  | apply _ => none

def operator? : Instruction → Option Operator
  | push _ => none
  | apply op => some op

def items (code : List Instruction) : List Item :=
  code.filterMap item?

def operators (code : List Instruction) : List Operator :=
  code.filterMap operator?

end Instruction

/-- How many of the operators are binary. -/
def Operator.binaryCount (ops : List Operator) : Nat :=
  ops.countP fun op => !op.isUnary

/-! ## The converter -/

namespace Postfix

def Pending.operator? : Pending → Option Operator
  | operator op => some op
  | paren => none

/-- The operators that wait on a stack. -/
def waiting (stack : List Pending) : List Operator :=
  stack.filterMap Pending.operator?

/-- Instructions that only apply operators, and the operators that wait behind them. -/
def Splits (stack : List Pending) (out : List Instruction) (below : List Pending) : Prop :=
  Instruction.items out = [] ∧ Instruction.operators out ++ waiting below = waiting stack

theorem Splits.refl (stack : List Pending) : Splits stack [] stack := ⟨rfl, rfl⟩

theorem Splits.cons {stack below : List Pending} {out : List Instruction} (h : Splits stack out below)
    (op : Operator) : Splits (.operator op :: stack) (.apply op :: out) below :=
  ⟨h.1, congrArg (op :: ·) h.2⟩

theorem release_splits (next : Operator) (stack : List Pending) :
    Splits stack (release next stack).1 (release next stack).2 := by
  induction stack with
  | nil => exact .refl []
  | cons top stack ih =>
    cases top with
    | paren => exact .refl (.paren :: stack)
    | operator op =>
      rw [release]
      split
      · exact ih.cons op
      · exact .refl (.operator op :: stack)

theorem close?_splits {stack below : List Pending} {out : List Instruction}
    (h : close? stack = some (out, below)) : Splits stack out below := by
  induction stack generalizing out with
  | nil => cases h
  | cons top stack ih =>
    cases top with
    | paren =>
      cases h
      exact ⟨rfl, rfl⟩
    | operator op =>
      obtain ⟨⟨rest, below'⟩, hrest, heq⟩ := Option.map_eq_some_iff.1 h
      cases heq
      exact (ih hrest).cons op

theorem finish?_splits {stack : List Pending} {out : List Instruction} (h : finish? stack = some out) :
    Splits stack out [] := by
  induction stack generalizing out with
  | nil =>
    cases h
    exact .refl []
  | cons top stack ih =>
    cases top with
    | paren => cases h
    | operator op =>
      obtain ⟨rest, hrest, rfl⟩ := Option.map_eq_some_iff.1 h
      exact (ih hrest).cons op

/-- What `enter` puts out and leaves on the stack is what was there and the operator. -/
theorem enter_perm (op : Operator) (stack : List Pending) :
    Instruction.items (enter op stack).1 = [] ∧
      (Instruction.operators (enter op stack).1 ++ waiting (enter op stack).2).Perm (op :: waiting stack) := by
  unfold enter
  split
  · exact ⟨rfl, .refl _⟩
  · have hsplits := release_splits op stack
    refine ⟨hsplits.1, ?_⟩
    rw [← hsplits.2]
    exact List.perm_middle

/-- The converter keeps the values in order, and the operators that it puts out are those it read and those that
waited. -/
theorem convert_conserves {stack : List Pending} {elements : List Element} {code : List Instruction}
    (h : convert stack elements = .ok code) :
    Instruction.items code = Element.items elements ∧
      (Instruction.operators code).Perm (waiting stack ++ Element.operators elements) := by
  induction elements generalizing stack code with
  | nil =>
    rw [convert] at h
    split at h
    · rename_i out hfinish
      cases h
      obtain ⟨hitems, hops⟩ := finish?_splits hfinish
      refine ⟨hitems, ?_⟩
      rw [← hops]
      simp [waiting, Element.operators]
    · cases h
  | cons element rest ih =>
    cases element with
    | value item =>
      rw [convert_value] at h
      cases hrest : convert stack rest with
      | error kind => rw [hrest] at h; cases h
      | ok out =>
        rw [hrest] at h
        cases h
        obtain ⟨hitems, hops⟩ := ih hrest
        exact ⟨congrArg (item :: ·) hitems, hops⟩
    | openParen =>
      rw [convert] at h
      have hrest := ih h
      exact hrest
    | closeParen =>
      cases hclose : close? stack with
      | none => simp [convert, hclose] at h
      | some pair =>
        obtain ⟨first, below⟩ := pair
        rw [convert_closeParen hclose] at h
        cases hrest : convert below rest with
        | error kind => rw [hrest] at h; cases h
        | ok out =>
          rw [hrest] at h
          cases h
          obtain ⟨hitems, hops⟩ := ih hrest
          obtain ⟨hfirst, hsplit⟩ := close?_splits hclose
          constructor
          · rw [Instruction.items, List.filterMap_append]
            change Instruction.items first ++ Instruction.items out = _
            rw [hfirst, hitems]
            rfl
          · rw [Instruction.operators, List.filterMap_append, ← hsplit, List.append_assoc]
            exact hops.append_left _
    | operator op =>
      rw [convert_operator] at h
      cases hrest : convert (enter op stack).2 rest with
      | error kind => rw [hrest] at h; cases h
      | ok out =>
        rw [hrest] at h
        cases h
        obtain ⟨hitems, hops⟩ := ih hrest
        obtain ⟨hfirst, henter⟩ := enter_perm op stack
        constructor
        · rw [Instruction.items, List.filterMap_append]
          change Instruction.items (enter op stack).1 ++ Instruction.items out = _
          rw [hfirst, hitems]
          rfl
        · rw [Instruction.operators, List.filterMap_append]
          calc
            (Instruction.operators (enter op stack).1 ++ Instruction.operators out).Perm
                (Instruction.operators (enter op stack).1 ++
                  (waiting (enter op stack).2 ++ Element.operators rest)) :=
              hops.append_left _
            List.Perm _ (op :: waiting stack ++ Element.operators rest) := by
              rw [← List.append_assoc]
              exact henter.append_right _
            List.Perm _ (waiting stack ++ op :: Element.operators rest) := List.perm_middle.symm

end Postfix

/-! ## The stack machine -/

namespace Instruction

/-- What one instruction does to the height of the stack. -/
theorem length_step {stack after : List Item} {instruction : Instruction}
    (h : instruction.step stack = .ok after) :
    after.length + Operator.binaryCount (operators [instruction]) = stack.length + (items [instruction]).length := by
  cases instruction with
  | push item =>
    cases h
    rfl
  | apply op =>
    by_cases hop : op.isUnary = true
    · cases stack with
      | nil => cases h
      | cons top rest =>
        rw [OperatorTree.step_unary hop] at h
        cases happly : op.applyUnary top with
        | error kind => rw [happly] at h; cases h
        | ok item =>
          rw [happly] at h
          cases h
          simp [operators, operator?, items, item?, Operator.binaryCount, hop]
    · have hbinary : op.isUnary = false := by simpa using hop
      match stack with
      | [] => cases h
      | [top] =>
        obtain ⟨kind, hkind⟩ := Operator.applyUnary_of_not_isUnary hbinary top
        rw [step, hkind] at h
        cases h
      | right :: left :: rest =>
        rw [OperatorTree.step_binary hbinary] at h
        cases happly : op.apply left right with
        | error kind => rw [happly] at h; cases h
        | ok item =>
          rw [happly] at h
          cases h
          simp [operators, operator?, items, item?, Operator.binaryCount, hbinary]

theorem length_run {stack after : List Item} {code : List Instruction} (h : run stack code = .ok after) :
    after.length + Operator.binaryCount (operators code) = stack.length + (items code).length := by
  induction code generalizing stack with
  | nil =>
    cases h
    rfl
  | cons instruction rest ih =>
    rw [run] at h
    cases hstep : instruction.step stack with
    | error kind => rw [hstep] at h; cases h
    | ok middle =>
      rw [hstep] at h
      have hrest := ih h
      have hfirst := length_step hstep
      have hops : operators (instruction :: rest) = operators [instruction] ++ operators rest := by
        rw [operators, operators, operators, ← List.filterMap_append]
        rfl
      have hitems : items (instruction :: rest) = items [instruction] ++ items rest := by
        rw [items, items, items, ← List.filterMap_append]
        rfl
      rw [hops, hitems, Operator.binaryCount, List.countP_append, List.length_append]
      rw [Operator.binaryCount] at hrest hfirst
      omega

end Instruction

/-- An expression with a value has one value more than it has binary operators. -/
theorem items_length_of_value {elements : List Element} {item : Item} (h : Expression.value elements = .ok item) :
    (Element.items elements).length = Operator.binaryCount (Element.operators elements) + 1 := by
  rw [Expression.value] at h
  cases hcode : Element.toPostfix elements with
  | error kind => rw [hcode] at h; cases h
  | ok code =>
    rw [hcode] at h
    change (Instruction.run [] code >>= Instruction.result) = _ at h
    cases hrun : Instruction.run [] code with
    | error kind => rw [hrun] at h; cases h
    | ok after =>
      rw [hrun] at h
      change Instruction.result after = _ at h
      obtain ⟨hitems, hops⟩ := Postfix.convert_conserves hcode
      have hlength := Instruction.length_run hrun
      have hone : after.length = 1 := by
        unfold Instruction.result at h
        split at h
        · rfl
        · cases h
      rw [hitems, Operator.binaryCount, hops.countP_eq] at hlength
      rw [Operator.binaryCount]
      simp only [Postfix.waiting, List.filterMap_nil, List.nil_append, List.length_nil] at hlength
      omega

theorem Expression.value_of_calculate {elements : List Element} {line : Nat} {item : Item}
    (h : calculate ⟨elements, line⟩ = .ok item) : value elements = .ok item := by
  rw [calculate] at h
  cases hvalue : value elements with
  | ok result =>
    rw [hvalue] at h
    cases h
    rfl
  | error kind =>
    rw [hvalue] at h
    cases h

end GradualScript
