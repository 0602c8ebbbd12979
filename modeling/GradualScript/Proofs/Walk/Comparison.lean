import GradualScript.Call
import GradualScript.Walk.Basic

/-!
# Comparing results

Values may hold floating point numbers and registries hold functions, so equality of contexts is not decidable. What a
given program comes to is found with a test that may miss that two things are equal, but never finds different ones
equal:

* `Comparable` : a type with such a test, `Comparable.same`, and `Comparable.eq_of_same`;
* `Comparable.ofInjective` : things are compared by their parts;
* `Item.same`, `Registry.isEmpty` : the two tests that miss something.
-/

set_option autoImplicit false

namespace GradualScript

/-- A type with a test that succeeds on equal things only. -/
class Comparable (α : Type) where
  same : α → α → Bool
  eq_of_same {x y : α} : same x y = true → x = y

namespace Comparable

variable {α β ε σ : Type}

instance (priority := low) [DecidableEq α] : Comparable α where
  same x y := decide (x = y)
  eq_of_same := of_decide_eq_true

/-- Things are equal if their parts are. -/
abbrev ofInjective [Comparable β] (parts : α → β) (h : ∀ x y, parts x = parts y → x = y) : Comparable α where
  same x y := same (parts x) (parts y)
  eq_of_same hsame := h _ _ (eq_of_same hsame)

instance [Comparable α] [Comparable β] : Comparable (α × β) where
  same x y := same x.1 y.1 && same x.2 y.2
  eq_of_same h :=
    have hparts := Bool.and_eq_true_iff.1 h
    Prod.ext (eq_of_same hparts.1) (eq_of_same hparts.2)

def sameLists [Comparable α] : List α → List α → Bool
  | [], [] => true
  | x :: xs, y :: ys => same x y && sameLists xs ys
  | _, _ => false

theorem eq_of_sameLists [Comparable α] {xs ys : List α} (h : sameLists xs ys = true) : xs = ys := by
  induction xs generalizing ys with
  | nil =>
    cases ys with
    | nil => rfl
    | cons => cases h
  | cons x xs ih =>
    cases ys with
    | nil => cases h
    | cons y ys =>
      obtain ⟨hfirst, hrest⟩ := Bool.and_eq_true_iff.1 h
      rw [eq_of_same hfirst, ih hrest]

instance [Comparable α] : Comparable (List α) := ⟨sameLists, eq_of_sameLists⟩

instance [Comparable ε] [Comparable σ] [Comparable α] : Comparable (EStateM.Result ε σ α) where
  same
    | .ok x s, .ok y t => same (x, s) (y, t)
    | .error e s, .error f t => same (e, s) (f, t)
    | _, _ => false
  eq_of_same {x y} h := by
    cases x <;> cases y
    case ok.ok => cases eq_of_same h; rfl
    case error.error => cases eq_of_same h; rfl
    all_goals cases h

end Comparable

/-- Numbers with a fraction and objects are not compared. -/
def Item.same : Item → Item → Bool
  | .int x, .int y => x = y
  | .bool x, .bool y => x = y
  | .char x, .char y => x = y
  | .string x, .string y => x = y
  | .function f, .function g => f = g
  | .unit, .unit => true
  | _, _ => false

theorem Item.eq_of_same {x y : Item} (h : x.same y = true) : x = y := by
  unfold Item.same at h
  split at h
  case h_6 => rfl
  case h_7 => cases h
  all_goals exact congrArg _ (of_decide_eq_true h)

instance : Comparable Item := ⟨Item.same, Item.eq_of_same⟩

instance : Comparable Outcome :=
  .ofInjective (fun
    | .completed item => (true, item)
    | .returned item => (false, item)) (by
    rintro (_ | _) (_ | _) ⟨⟩ <;> rfl)

instance : Comparable CallResult :=
  .ofInjective (fun result => (result.isVoid, result.item)) (by
    rintro (_ | _) (_ | _) ⟨⟩ <;> rfl)

instance : Comparable Binding :=
  .ofInjective (fun binding => (binding.name, binding.isMutable, binding.types, binding.item)) (by
    rintro ⟨⟩ ⟨⟩ ⟨⟩
    rfl)

instance : Comparable ScopeStack :=
  .ofInjective ScopeStack.toList (by
    rintro ⟨⟩ ⟨⟩ ⟨⟩
    rfl)

def Registry.isEmpty (registry : Registry) : Bool :=
  registry.functions.isEmpty && registry.builtinClasses.isEmpty && registry.userClasses.isEmpty

theorem Registry.eq_empty_of_isEmpty {registry : Registry} (h : registry.isEmpty = true) : registry = .empty := by
  obtain ⟨functions, builtinClasses, userClasses⟩ := registry
  simp only [isEmpty, Bool.and_eq_true, List.isEmpty_iff] at h
  obtain ⟨⟨rfl, rfl⟩, rfl⟩ := h
  rfl

instance : Comparable Registry where
  same registry other := registry.isEmpty && other.isEmpty
  eq_of_same h := by
    obtain ⟨hleft, hright⟩ := Bool.and_eq_true_iff.1 h
    rw [Registry.eq_empty_of_isEmpty hleft, Registry.eq_empty_of_isEmpty hright]

instance : Comparable Context :=
  .ofInjective (fun context => (context.scopes, context.registry, context.config, context.callDepth)) (by
    rintro ⟨⟩ ⟨⟩ ⟨⟩
    rfl)

instance : Comparable Cursor :=
  .ofInjective (fun cursor => (cursor.before, cursor.current, cursor.rest)) (by
    rintro ⟨⟩ ⟨⟩ ⟨⟩
    rfl)

instance : Comparable Walk :=
  .ofInjective (fun walk => (walk.cursor, walk.context)) (by
    rintro ⟨⟩ ⟨⟩ ⟨⟩
    rfl)

end GradualScript
