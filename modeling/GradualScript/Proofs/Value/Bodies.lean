import GradualScript.Proofs.OperatorTree.Counting
import GradualScript.Value.Literal

/-!
# Functions inside values

* `Item.Carries` : a value is a function, or an object with the function somewhere in its fields;
* `Item.BodiesIn p` : the bodies of all functions in a value have the property `p`;
* `Item.Bare` : a value without functions, such as every literal and every result of an operator;
* `holds_of_value` : an expression has one of the values in it as its value, or a value without functions;
* `bodiesIn_of_value` : so no function is in its value that was not in one of its elements.
-/

set_option autoImplicit false

namespace GradualScript

namespace Item

/-- The value is the function or holds it in a field, at any depth. -/
inductive Carries : Item → Function → Prop where
  | itself (function : Function) : Carries (.function function) function
  | field {className name : String} {fields : List (String × Item)} {item : Item} {function : Function} :
    (name, item) ∈ fields → Carries item function → Carries (.object className fields) function

/-- Every function in the value has a body with the property. -/
def BodiesIn (p : List Token → Prop) (item : Item) : Prop :=
  ∀ function, item.Carries function → p function.body

/-- There is no function in the value. -/
def Bare (item : Item) : Prop :=
  ∀ function, ¬item.Carries function

variable {p : List Token → Prop}

theorem Bare.bodiesIn {item : Item} (h : item.Bare) : item.BodiesIn p :=
  fun function hcarries => absurd hcarries (h function)

theorem bodiesIn_function {function : Function} : (Item.function function).BodiesIn p ↔ p function.body := by
  refine ⟨fun h => h function (.itself function), fun h other hcarries => ?_⟩
  cases hcarries
  exact h

theorem bare_int (value : Int64) : (Item.int value).Bare := fun _ h => nomatch h

theorem bare_float (value : Float) : (Item.float value).Bare := fun _ h => nomatch h

theorem bare_bool (value : Bool) : (Item.bool value).Bare := fun _ h => nomatch h

theorem bare_char (value : Char) : (Item.char value).Bare := fun _ h => nomatch h

theorem bare_string (value : String) : (Item.string value).Bare := fun _ h => nomatch h

theorem bare_unit : Item.unit.Bare := fun _ h => nomatch h

/-- A literal is no function. -/
theorem bare_of_ofLiteral {token : Token} {item : Item} (h : ofLiteral token = .ok item) : item.Bare := by
  unfold ofLiteral at h
  split at h
  · split at h
    · cases h
      exact bare_int _
    · cases h
  · split at h
    · cases h
      exact bare_float _
    · cases h
  · cases h
    exact bare_bool _
  · cases h
    exact bare_string _
  · split at h
    · cases h
      exact bare_char _
    · cases h
  · cases h

end Item

/-! ## Operators -/

namespace Operator

open Item

theorem bare_of_orOverflow {operation : String} {value : Option Int64} {item : Item}
    (h : orOverflow operation value = .ok item) : item.Bare := by
  cases value with
  | some value =>
    cases h
    exact bare_int value
  | none => cases h

theorem bare_of_applyInt {op : Operator} {x y : Int64} {item : Item} (h : op.applyInt x y = .ok item) :
    item.Bare := by
  unfold applyInt at h
  split at h
  · cases h
  split at h
  · cases h
    exact bare_bool _
  split at h
  · exact bare_of_orOverflow h
  · exact bare_of_orOverflow h
  · exact bare_of_orOverflow h
  · exact bare_of_orOverflow h
  · exact bare_of_orOverflow h
  · split at h
    · exact bare_of_orOverflow h
    · cases h
  · cases h

theorem bare_of_applyFloat {op : Operator} {x y : Float} {item : Item} (h : op.applyFloat x y = .ok item) :
    item.Bare := by
  unfold applyFloat at h
  split at h
  · cases h
  split at h
  · cases h
    exact bare_bool _
  split at h <;> cases h <;> exact bare_float _

theorem bare_of_applyBool {op : Operator} {x y : Bool} {item : Item} (h : op.applyBool x y = .ok item) :
    item.Bare := by
  unfold applyBool at h
  split at h
  · cases h
    exact bare_bool _
  split at h <;> cases h <;> exact bare_bool _

theorem bare_of_applyString {op : Operator} {x y : String} {item : Item} (h : op.applyString x y = .ok item) :
    item.Bare := by
  unfold applyString at h
  split at h
  · cases h
    exact bare_bool _
  split at h
  · cases h
    exact bare_string _
  · cases h

theorem bare_of_applyChar {op : Operator} {x y : Char} {item : Item} (h : op.applyChar x y = .ok item) :
    item.Bare := by
  unfold applyChar at h
  split at h
  · cases h
    exact bare_bool _
  dsimp only at h
  split at h
  · cases h
    exact bare_char _
  · cases h

theorem bare_of_applyCategory {op : Operator} {left right item : Item}
    (h : op.applyCategory left right = .ok item) : item.Bare := by
  unfold applyCategory at h
  split at h
  · cases h
  split at h
  · exact bare_of_applyInt h
  · exact bare_of_applyFloat h
  · exact bare_of_applyFloat h
  · exact bare_of_applyFloat h
  · exact bare_of_applyBool h
  · exact bare_of_applyString h
  · exact bare_of_applyChar h
  · cases h

theorem bare_of_repeated {text : String} {count : Int64} {item : Item} (h : repeated text count = .ok item) :
    item.Bare := by
  unfold repeated at h
  split at h
  · cases h
  split at h
  · cases h
    exact bare_string _
  · cases h

/-- No operator gives a function. -/
theorem bare_of_apply {op : Operator} {left right item : Item} (h : op.apply left right = .ok item) :
    item.Bare := by
  unfold apply at h
  split at h
  · cases h
  split at h
  · exact bare_of_repeated h
  · exact bare_of_repeated h
  · cases h
    exact bare_string _
  · cases h
    exact bare_string _
  · exact bare_of_applyCategory h

theorem bare_of_applyUnary {op : Operator} {operand item : Item} (h : op.applyUnary operand = .ok item) :
    item.Bare := by
  unfold applyUnary at h
  split at h
  · split at h
    · cases h
      exact bare_int _
    · exact bare_of_orOverflow h
    · cases h
      exact bare_int _
    · cases h
  · split at h <;> cases h <;> exact bare_float _
  · split at h <;> cases h
    exact bare_bool _
  · cases h

end Operator

/-! ## Expressions -/

/-- The value that the element is, if it is one, has only functions whose bodies have the property. -/
def Element.BodiesIn (p : List Token → Prop) (element : Element) : Prop :=
  ∀ item, element.item? = some item → item.BodiesIn p

/-- So do all values in the expression. -/
def Expression.BodiesIn (p : List Token → Prop) (expression : Expression) : Prop :=
  ∀ element ∈ expression.elements, element.BodiesIn p

namespace Instruction

variable {q : Item → Prop}

/-- One instruction leaves the value that it pushes, values that were there and one without functions. -/
theorem holds_step (hbare : ∀ item : Item, item.Bare → q item) {stack later : List Item} {instruction : Instruction}
    (hpushed : ∀ item, instruction.item? = some item → q item) (hstack : ∀ item ∈ stack, q item)
    (h : instruction.step stack = .ok later) : ∀ item ∈ later, q item := by
  cases instruction with
  | push pushed =>
    cases h
    exact List.forall_mem_cons.2 ⟨hpushed pushed rfl, hstack⟩
  | apply op =>
    cases stack with
    | nil => cases h
    | cons right rest =>
      obtain ⟨-, hrest⟩ := List.forall_mem_cons.1 hstack
      cases hunary : op.isUnary with
      | true =>
        rw [OperatorTree.step_unary hunary] at h
        cases hresult : op.applyUnary right with
        | error kind =>
          rw [hresult] at h
          cases h
        | ok result =>
          rw [hresult] at h
          cases h
          exact List.forall_mem_cons.2 ⟨hbare _ (Operator.bare_of_applyUnary hresult), hrest⟩
      | false =>
        cases rest with
        | nil =>
          obtain ⟨kind, hresult⟩ := Operator.applyUnary_of_not_isUnary hunary right
          rw [step, hresult] at h
          cases h
        | cons left rest =>
          rw [OperatorTree.step_binary hunary] at h
          cases hresult : op.apply left right with
          | error kind =>
            rw [hresult] at h
            cases h
          | ok result =>
            rw [hresult] at h
            cases h
            obtain ⟨-, hrest⟩ := List.forall_mem_cons.1 hrest
            exact List.forall_mem_cons.2 ⟨hbare _ (Operator.bare_of_apply hresult), hrest⟩

theorem holds_run (hbare : ∀ item : Item, item.Bare → q item) {stack later : List Item} {code : List Instruction}
    (hcode : ∀ item ∈ items code, q item) (hstack : ∀ item ∈ stack, q item) (h : run stack code = .ok later) :
    ∀ item ∈ later, q item := by
  induction code generalizing stack with
  | nil =>
    cases h
    exact hstack
  | cons instruction rest ih =>
    rw [run] at h
    cases hstep : instruction.step stack with
    | error kind =>
      rw [hstep] at h
      cases h
    | ok next =>
      rw [hstep] at h
      refine ih (fun item hitem => hcode item ?_) (holds_step hbare (fun item hitem => hcode item ?_) hstack hstep) h
      · exact List.mem_filterMap.2 (List.mem_filterMap.1 hitem |>.imp fun _ => And.imp_left (List.mem_cons_of_mem _))
      · exact List.mem_filterMap.2 ⟨instruction, List.mem_cons_self, hitem⟩

end Instruction

/-- The value of an expression is one of the values in it, or has no functions. -/
theorem holds_of_value {q : Item → Prop} (hbare : ∀ item : Item, item.Bare → q item) {elements : List Element}
    {item : Item} (helements : ∀ element ∈ elements, ∀ item, element.item? = some item → q item)
    (h : Expression.value elements = .ok item) : q item := by
  have hitems : ∀ item ∈ Element.items elements, q item := by
    intro item hitem
    obtain ⟨element, hmem, heq⟩ := List.mem_filterMap.1 hitem
    exact helements element hmem item heq
  rw [Expression.value] at h
  cases hcode : Element.toPostfix elements with
  | error kind =>
    rw [hcode] at h
    cases h
  | ok code =>
    rw [hcode] at h
    change (Instruction.run [] code >>= Instruction.result) = _ at h
    cases hrun : Instruction.run [] code with
    | error kind =>
      rw [hrun] at h
      cases h
    | ok after =>
      rw [hrun] at h
      change Instruction.result after = _ at h
      rw [← (Postfix.convert_conserves hcode).1] at hitems
      have hafter := Instruction.holds_run hbare hitems (by simp) hrun
      unfold Instruction.result at h
      split at h
      · cases h
        exact hafter item (by simp)
      · cases h

/-- The value of an expression has no functions but those of the values in it. -/
theorem bodiesIn_of_value {p : List Token → Prop} {elements : List Element} {item : Item}
    (helements : ∀ element ∈ elements, element.BodiesIn p) (h : Expression.value elements = .ok item) :
    item.BodiesIn p :=
  holds_of_value (fun _ hbare => hbare.bodiesIn) helements h

end GradualScript
