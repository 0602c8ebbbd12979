import Mathlib.Data.List.Chain
import GradualScript.Proofs.OperatorTree.Counting

/-!
# Expressions with no operand right behind another

The converter and the stack machine accept lists of elements that are no infix order of anything. They do not if no
operand stands right behind another: then a value comes only out of a tree.

* `Element.Spaced` : a value or a closing parenthesis is never right before a value, an opening parenthesis or a
  unary operator;
* `items_le_of_spaced` : spaced elements have at most one value more than binary operators;
* `exists_finish?_of_spaced` : with exactly one more, and parentheses in order, the tree reader does not fail;
* `exists_tree_of_value` : a spaced expression with a value is written as exactly one grouped tree.
-/

set_option autoImplicit false

namespace GradualScript

open Postfix (convert)

namespace Element

/-- An operand ends with the element. -/
def endsOperand : Element → Bool
  | value _ | closeParen => true
  | operator _ | openParen => false

/-- An operand starts with the element. -/
def startsOperand : Element → Bool
  | value _ | openParen => true
  | operator op => op.isUnary
  | closeParen => false

/-- No operand stands right behind another. -/
def Spaced (elements : List Element) : Prop :=
  elements.IsChain fun first second => ¬(first.endsOperand = true ∧ second.startsOperand = true)

/-- The elements begin with an operand. -/
def opens : List Element → Bool
  | [] => false
  | element :: _ => element.startsOperand

theorem Spaced.tail {element : Element} {rest : List Element} (h : Spaced (element :: rest)) : Spaced rest :=
  List.IsChain.tail h

theorem Spaced.opens_eq_false {element : Element} {rest : List Element} (h : Spaced (element :: rest))
    (hends : element.endsOperand = true) : opens rest = false := by
  cases rest with
  | nil => rfl
  | cons second rest =>
    have hpair := (List.isChain_cons_cons.1 h).1
    change second.startsOperand = false
    simpa [hends] using hpair

theorem Spaced.cons {element : Element} {rest : List Element} (h : Spaced rest)
    (hends : element.endsOperand = true → opens rest = false) : Spaced (element :: rest) := by
  cases rest with
  | nil => exact .singleton element
  | cons second rest =>
    refine List.isChain_cons_cons.2 ⟨?_, h⟩
    rintro ⟨hends', hstarts⟩
    have hfalse : second.startsOperand = false := hends hends'
    rw [hstarts] at hfalse
    cases hfalse

theorem items_cons (element : Element) (rest : List Element) :
    (items (element :: rest)).length = (items [element]).length + (items rest).length := by
  rw [items, items, items, ← List.length_append, ← List.filterMap_append]
  rfl

theorem binaryCount_cons (element : Element) (rest : List Element) :
    Operator.binaryCount (operators (element :: rest)) =
      Operator.binaryCount (operators [element]) + Operator.binaryCount (operators rest) := by
  rw [operators, operators, operators, Operator.binaryCount, Operator.binaryCount, Operator.binaryCount,
    ← List.countP_append, ← List.filterMap_append]
  rfl

theorem binaryCount_operator (op : Operator) :
    Operator.binaryCount (operators [operator op]) = if op.isUnary then 0 else 1 := by
  cases h : op.isUnary <;> simp [operators, operator?, Operator.binaryCount, h]

/-- Between two values of spaced elements there is a binary operator. -/
theorem items_le_of_spaced {elements : List Element} (h : Spaced elements) :
    (items elements).length ≤ Operator.binaryCount (operators elements) + if opens elements then 1 else 0 := by
  induction elements with
  | nil => exact Nat.le_refl 0
  | cons element rest ih =>
    have hrest := ih h.tail
    rw [items_cons, binaryCount_cons]
    have hone : (if opens rest = true then 1 else 0) ≤ 1 := by split <;> omega
    cases element with
    | value item =>
      rw [h.opens_eq_false rfl] at hrest
      change _ ≤ _ + 0 at hrest
      change 1 + _ ≤ 0 + _ + 1
      omega
    | openParen =>
      change 0 + _ ≤ 0 + _ + 1
      omega
    | closeParen =>
      rw [h.opens_eq_false rfl] at hrest
      change _ ≤ _ + 0 at hrest
      change 0 + _ ≤ 0 + _ + 0
      omega
    | operator op =>
      rw [binaryCount_operator]
      change 0 + _ ≤ _ + _ + if op.isUnary = true then 1 else 0
      by_cases hop : op.isUnary = true
      · rw [if_pos hop, if_pos hop]
        omega
      · rw [if_neg hop, if_neg hop]
        omega

end Element

namespace TreeReader

open Element (Spaced opens items operators)

/-- How many values are still to come for each binary operator and one more. -/
def lacking (reader : TreeReader) : Nat :=
  if reader.operand?.isSome then 0 else 1

/-- Spaced elements are read to the end if the converter takes them and the values are as many as they have to
be. -/
theorem exists_finish?_of_spaced {reader : TreeReader} {elements : List Element} {code : List Instruction}
    (hspaced : Spaced elements) (hstart : reader.operand?.isSome = true → opens elements = false)
    (hconvert : convert reader.stack elements = .ok code)
    (hcount : (items elements).length = Operator.binaryCount (operators elements) + reader.lacking) :
    ∃ last t, reader.run? elements = some last ∧ last.finish? = some t := by
  induction elements generalizing reader code with
  | nil =>
    obtain ⟨frames, operand⟩ := reader
    cases operand with
    | none => cases hcount
    | some t =>
      have hpending := Frame.finish?_pending frames t
      cases hfinish : Frame.finish? frames t with
      | some whole => exact ⟨_, whole, rfl, hfinish⟩
      | none =>
        rw [hfinish] at hpending
        rw [convert, stack, hpending] at hconvert
        cases hconvert
  | cons element rest ih =>
    -- It is enough to take the first element: the rest is spaced, converts and has the right count.
    suffices hstep : ∃ next, reader.step? element = some next ∧
        (next.operand?.isSome = true → opens rest = false) ∧
        (items rest).length = Operator.binaryCount (operators rest) + next.lacking by
      obtain ⟨next, hnext, hopens, hrest⟩ := hstep
      obtain ⟨out, -, hstack⟩ := step?_convert hnext
      rw [hstack] at hconvert
      cases hout : convert next.stack rest with
      | error kind => rw [hout] at hconvert; cases hconvert
      | ok tailCode =>
        obtain ⟨last, t, hrun, hfinish⟩ := ih hspaced.tail hopens hout hrest
        exact ⟨last, t, by rw [run?, hnext]; exact hrun, hfinish⟩
    have hle := Element.items_le_of_spaced hspaced.tail
    have hone : (if opens rest = true then 1 else 0) ≤ 1 := by split <;> omega
    rw [Element.items_cons, Element.binaryCount_cons] at hcount
    obtain ⟨frames, operand⟩ := reader
    cases operand with
    | none =>
      change _ = _ + 1 at hcount
      cases element with
      | value item =>
        refine ⟨_, rfl, fun _ => hspaced.opens_eq_false rfl, ?_⟩
        change 1 + _ = 0 + _ + 1 at hcount
        change _ = _ + 0
        omega
      | openParen =>
        refine ⟨_, rfl, fun h => (by cases h), ?_⟩
        change 0 + _ = 0 + _ + 1 at hcount
        change _ = _ + 1
        omega
      | closeParen =>
        rw [hspaced.opens_eq_false rfl] at hle
        change 0 + _ = 0 + _ + 1 at hcount
        simp only [Bool.false_eq_true, if_false] at hle
        omega
      | operator op =>
        rw [Element.binaryCount_operator] at hcount
        change 0 + _ = _ at hcount
        by_cases hop : op.isUnary = true
        · rw [if_pos hop] at hcount
          refine ⟨⟨.unary op :: frames, none⟩, by rw [step?, if_pos hop], fun h => (by cases h), ?_⟩
          change _ = _ + 1
          omega
        · rw [if_neg hop] at hcount
          omega
    | some t =>
      change _ = _ + 0 at hcount
      have hhead : element.startsOperand = false := hstart rfl
      cases element with
      | value item => cases hhead
      | openParen => cases hhead
      | closeParen =>
        have hpending := Frame.close?_pending frames t
        cases hclose : Frame.close? frames t with
        | none =>
          rw [hclose] at hpending
          simp [convert, stack, hpending] at hconvert
        | some pair =>
          refine ⟨⟨pair.1, some pair.2⟩, by rw [step?, hclose]; rfl, fun _ => hspaced.opens_eq_false rfl, ?_⟩
          change 0 + _ = 0 + _ + 0 at hcount
          change _ = _ + 0
          omega
      | operator op =>
        have hop : op.isUnary = false := hhead
        rw [Element.binaryCount_operator, hop] at hcount
        change 0 + _ = 1 + _ + 0 at hcount
        refine ⟨⟨.binary op (Frame.settle op frames t).2 :: (Frame.settle op frames t).1, none⟩,
          by rw [step?, hop]; rfl, fun h => (by cases h), ?_⟩
        change _ = _ + 1
        omega

end TreeReader

namespace OperatorTree

/-- A spaced expression with a value is written as exactly one grouped tree, and has the value of that. -/
theorem exists_tree_of_value {elements : List Element} {item : Item} (hspaced : Element.Spaced elements)
    (h : Expression.value elements = .ok item) :
    ∃ t : OperatorTree, (t.Grouped ∧ t.written = elements ∧ t.eval = .ok item) ∧
      ∀ other : OperatorTree, other.Grouped → other.written = elements → other = t := by
  have hcount := items_length_of_value h
  cases hcode : Element.toPostfix elements with
  | error kind =>
    rw [Expression.value, hcode] at h
    cases h
  | ok code =>
    have hstart : TreeReader.start.operand?.isSome = true → Element.opens elements = false := fun h => by cases h
    obtain ⟨last, t, hrun, hfinish⟩ := TreeReader.exists_finish?_of_spaced hspaced hstart hcode hcount
    have hread : read? elements = some t := by
      rw [read?, hrun]
      exact hfinish
    obtain ⟨hgrouped, hwritten⟩ := read?_eq_some_iff.1 hread
    refine ⟨t, ⟨hgrouped, hwritten, (value_of_read? hread).symm.trans h⟩, fun other hother hsame => ?_⟩
    have hagain : read? elements = some other := read?_eq_some_iff.2 ⟨hother, hsame⟩
    rw [hread] at hagain
    exact (Option.some.inj hagain).symm

end OperatorTree

end GradualScript
