import GradualScript.Proofs.Scope.Persistence

/-!
# Bindings by their scope

Scopes are counted from the inside out, so that a name and a level tell one binding from all others.

* `Scope.bindingAt?` : the binding of a name in the scope at a level;
* `Scope.Shadowed` : a scope further inside has the name too;
* `Scope.Resolves` : the name stands for the binding at this level (`lookup?_eq_some_iff`);
* `Scope.Stores` : a value is stored in one binding and nothing else changes, as it is over an assignment
  (`assign_stores`); then the name stands for the value (`Stores.findSome?`);
* `Resolves.of_persists` : where bindings persist, a name keeps standing for the same one;
* `ScopeStack.Holds` : a property of the values of all bindings, kept by every change that brings in only such values.
-/

set_option autoImplicit false

namespace GradualScript

namespace Scope

/-- The binding of a name in the scope at a level. -/
def bindingAt? (scopes : List Scope) (level : Nat) (name : String) : Option Binding :=
  scopes[level]?.bind (Scope.find? · name)

@[simp] theorem bindingAt?_zero (scope : Scope) (outer : List Scope) (name : String) :
    bindingAt? (scope :: outer) 0 name = scope.find? name :=
  rfl

@[simp] theorem bindingAt?_succ (scope : Scope) (outer : List Scope) (level : Nat) (name : String) :
    bindingAt? (scope :: outer) (level + 1) name = bindingAt? outer level name :=
  rfl

/-- A scope further inside has the name as well. -/
def Shadowed (scopes : List Scope) (level : Nat) (name : String) : Prop :=
  ∃ inner < level, (bindingAt? scopes inner name).isSome = true

/-- The name stands for the binding at this level: no scope further inside has the name. -/
structure Resolves (scopes : List Scope) (name : String) (level : Nat) (binding : Binding) : Prop where
  found : bindingAt? scopes level name = some binding
  visible : ¬Shadowed scopes level name

/-- A value is stored in the binding of a name at a level, and every other binding is the same. -/
structure Stores (level : Nat) (name : String) (item : Item) (scopes later : List Scope) : Prop where
  length : later.length = scopes.length
  stored : bindingAt? later level name = (bindingAt? scopes level name).map ({ · with item })
  other : ∀ l n, ¬(l = level ∧ n = name) → bindingAt? later l n = bindingAt? scopes l n

/-! ## Look-ups -/

theorem resolves_zero {scope : Scope} {outer : List Scope} {name : String} {binding : Binding} :
    Resolves (scope :: outer) name 0 binding ↔ scope.find? name = some binding := by
  refine ⟨Resolves.found, fun h => ⟨h, ?_⟩⟩
  rintro ⟨inner, hlt, -⟩
  omega

theorem resolves_succ {scope : Scope} {outer : List Scope} {name : String} {level : Nat} {binding : Binding} :
    Resolves (scope :: outer) name (level + 1) binding ↔
      scope.find? name = none ∧ Resolves outer name level binding := by
  constructor
  · intro h
    refine ⟨?_, h.found, ?_⟩
    · by_contra hsome
      exact h.visible ⟨0, by omega, by simpa [Option.isSome_iff_ne_none] using hsome⟩
    · rintro ⟨inner, hlt, hsome⟩
      exact h.visible ⟨inner + 1, by omega, hsome⟩
  · rintro ⟨hnone, hfound, hvisible⟩
    refine ⟨hfound, ?_⟩
    rintro ⟨inner, hlt, hsome⟩
    cases inner with
    | zero => simp [hnone] at hsome
    | succ inner => exact hvisible ⟨inner, by omega, hsome⟩

/-- A name that is found is found at the first level that has it. -/
theorem findSome?_eq_some_iff {scopes : List Scope} {name : String} {binding : Binding} :
    scopes.findSome? (·.find? name) = some binding ↔ ∃ level, Resolves scopes name level binding := by
  induction scopes with
  | nil => exact ⟨fun h => (by cases h), fun ⟨_, h⟩ => absurd h.found (by simp [bindingAt?])⟩
  | cons scope outer ih =>
    rw [List.findSome?_cons]
    cases hfind : scope.find? name with
    | some found =>
      refine ⟨fun h => ⟨0, resolves_zero.2 (hfind.trans h)⟩, ?_⟩
      rintro ⟨level, h⟩
      cases level with
      | zero => rw [← resolves_zero.1 h, hfind]
      | succ level =>
        rw [(resolves_succ.1 h).1] at hfind
        cases hfind
    | none =>
      dsimp only
      rw [ih]
      refine ⟨fun ⟨level, h⟩ => ⟨level + 1, resolves_succ.2 ⟨hfind, h⟩⟩, ?_⟩
      rintro ⟨level, h⟩
      cases level with
      | zero =>
        rw [resolves_zero.1 h] at hfind
        cases hfind
      | succ level => exact ⟨level, (resolves_succ.1 h).2⟩

/-- What a name stands for depends on its bindings at all levels. -/
theorem findSome?_congr {scopes later : List Scope} {name : String}
    (h : ∀ level, bindingAt? later level name = bindingAt? scopes level name) :
    later.findSome? (·.find? name) = scopes.findSome? (·.find? name) := by
  refine Option.ext fun binding => ?_
  have hresolves : ∀ level, Resolves later name level binding ↔ Resolves scopes name level binding := by
    intro level
    have hshadowed : Shadowed later level name ↔ Shadowed scopes level name := by
      simp only [Shadowed, h]
    exact ⟨fun hr => ⟨h level ▸ hr.found, fun hs => hr.visible (hshadowed.2 hs)⟩,
      fun hr => ⟨(h level).trans hr.found, fun hs => hr.visible (hshadowed.1 hs)⟩⟩
  exact findSome?_eq_some_iff.trans ((exists_congr hresolves).trans findSome?_eq_some_iff.symm)

/-! ## Storing a value -/

theorem find?_assign? {scope changed : Scope} {name : String} {item : Item}
    (h : scope.assign? name item = some changed) (other : String) :
    changed.find? other = if other = name then (scope.find? name).map ({ · with item }) else scope.find? other := by
  induction scope generalizing changed with
  | nil => cases h
  | cons first rest ih =>
    rw [assign?] at h
    by_cases hname : first.name = name
    · rw [if_pos hname] at h
      cases h
      by_cases hother : other = name
      · rw [if_pos hother, hother]
        simp [Scope.find?, hname]
      · have hne : first.name ≠ other := fun heq => hother (heq.symm.trans hname)
        rw [if_neg hother]
        simp [Scope.find?, hne]
    · rw [if_neg hname] at h
      obtain ⟨rest', hrest, rfl⟩ := Option.map_eq_some_iff.1 h
      have hstep := ih hrest
      unfold Scope.find? at hstep ⊢
      by_cases hfirst : first.name = other
      · have hne : other ≠ name := fun heq => hname (hfirst.trans heq)
        rw [if_neg hne, List.find?_cons_of_pos (by simpa using hfirst), List.find?_cons_of_pos (by simpa using hfirst)]
      · rw [List.find?_cons_of_neg (by simpa using hfirst), List.find?_cons_of_neg (by simpa using hname),
          List.find?_cons_of_neg (by simpa using hfirst)]
        exact hstep

/-- A value goes into the binding that the name stands for. -/
theorem assignFirst?_stores {scopes : List Scope} {name : String} {level : Nat} {binding : Binding}
    (h : Resolves scopes name level binding) (item : Item) :
    ∃ later, ScopeStack.assignFirst? name item scopes = some later ∧ Stores level name item scopes later := by
  induction scopes generalizing level with
  | nil => exact absurd h.found (by simp [bindingAt?])
  | cons scope outer ih =>
    cases level with
    | zero =>
      have hfind := resolves_zero.1 h
      cases hassign : scope.assign? name item with
      | none =>
        rw [assign?_eq_none_iff.1 hassign] at hfind
        cases hfind
      | some changed =>
        refine ⟨changed :: outer, by rw [ScopeStack.assignFirst?, hassign], rfl, ?_, ?_⟩
        · simpa using find?_assign? hassign name
        · intro l n hne
          cases l with
          | zero =>
            have hn : n ≠ name := fun heq => hne ⟨rfl, heq⟩
            simpa [hn] using find?_assign? hassign n
          | succ l => rfl
    | succ level =>
      obtain ⟨hnone, houter⟩ := resolves_succ.1 h
      obtain ⟨later, hlater, hstores⟩ := ih houter
      refine ⟨scope :: later, ?_, ?_, hstores.stored, ?_⟩
      · rw [ScopeStack.assignFirst?, assign?_eq_none_iff.2 hnone, hlater]
        rfl
      · simpa using hstores.length
      · intro l n hne
        cases l with
        | zero => rfl
        | succ l => exact hstores.other l n fun heq => hne ⟨by omega, heq.2⟩

/-- Afterwards the name stands for the value, and every other name for what it stood for. -/
theorem Stores.findSome? {scopes later : List Scope} {name : String} {level : Nat} {binding : Binding} {item : Item}
    (hstores : Stores level name item scopes later) (h : Resolves scopes name level binding) (other : String) :
    later.findSome? (·.find? other) =
      if other = name then some { binding with item } else scopes.findSome? (·.find? other) := by
  by_cases hother : other = name
  · subst hother
    rw [if_pos rfl]
    refine findSome?_eq_some_iff.2 ⟨level, ?_, ?_⟩
    · rw [hstores.stored, h.found]
      rfl
    · rintro ⟨inner, hlt, hsome⟩
      rw [hstores.other inner other fun hplace => by omega] at hsome
      exact h.visible ⟨inner, hlt, hsome⟩
  · rw [if_neg hother]
    exact findSome?_congr fun l => hstores.other l other fun hplace => hother hplace.2

/-- A value goes into the inner scopes if one of them has the name, and else into the outer ones. -/
theorem assignFirst?_append (name : String) (item : Item) (inner outer : List Scope) :
    ScopeStack.assignFirst? name item (inner ++ outer) =
      match ScopeStack.assignFirst? name item inner with
      | some changed => some (changed ++ outer)
      | none => (ScopeStack.assignFirst? name item outer).map (inner ++ ·) := by
  induction inner with
  | nil => simp [ScopeStack.assignFirst?]
  | cons scope inner ih =>
    rw [List.cons_append, ScopeStack.assignFirst?, ScopeStack.assignFirst?]
    cases scope.assign? name item with
    | some changed => rfl
    | none =>
      dsimp only
      rw [ih]
      cases ScopeStack.assignFirst? name item inner with
      | some changed => rfl
      | none =>
        cases ScopeStack.assignFirst? name item outer with
        | some changed => rfl
        | none => rfl

/-! ## What persists at each level -/

/-- A level has a binding of a name in both lists, or in neither. -/
theorem bindingAt?_of_persists {scopes later : List Scope} (h : List.Forall₂ Scope.Persists scopes later)
    (level : Nat) (name : String) :
    (bindingAt? scopes level name = none ∧ bindingAt? later level name = none) ∨
      ∃ binding binding', bindingAt? scopes level name = some binding ∧ bindingAt? later level name = some binding' ∧
        binding.Persists binding' := by
  induction h generalizing level with
  | nil => exact .inl ⟨rfl, rfl⟩
  | cons hscope _ ih =>
    cases level with
    | zero => exact Scope.Persists.find? hscope name
    | succ level => exact ih level

/-- A name keeps standing for the same binding, up to its value. -/
theorem Resolves.of_persists {scopes later : List Scope} {name : String} {level : Nat} {binding : Binding}
    (h : Resolves scopes name level binding) (hpersists : List.Forall₂ Scope.Persists scopes later) :
    ∃ binding', Resolves later name level binding' ∧ binding.Persists binding' := by
  rcases bindingAt?_of_persists hpersists level name with ⟨hnone, -⟩ | ⟨found, found', hfound, hfound', hb⟩
  · rw [h.found] at hnone
    cases hnone
  · rw [h.found] at hfound
    cases hfound
    refine ⟨found', ⟨hfound', ?_⟩, hb⟩
    rintro ⟨inner, hlt, hsome⟩
    refine h.visible ⟨inner, hlt, ?_⟩
    rcases bindingAt?_of_persists hpersists inner name with ⟨-, hnone⟩ | ⟨_, _, hbound, -⟩
    · rw [hnone] at hsome
      cases hsome
    · rw [hbound]
      rfl

end Scope

namespace ScopeStack

open Scope

theorem lookup?_eq_some_iff {stack : ScopeStack} {name : String} {binding : Binding} :
    stack.lookup? name = some binding ↔ ∃ level, Resolves stack.toList name level binding :=
  findSome?_eq_some_iff

/-- The stack whose scopes are those in which the value has been stored. -/
theorem assign_of_assignFirst? {stack : ScopeStack} {name : String} {item : Item} {scopes : List Scope}
    (h : assignFirst? name item stack.toList = some scopes) :
    ∃ changed, stack.assign name item = .ok changed ∧ changed.toList = scopes := by
  cases scopes with
  | cons innermost outer => exact ⟨⟨innermost, outer⟩, by rw [assign, h], rfl⟩
  | nil =>
    rw [toList, assignFirst?] at h
    split at h
    · cases h
    · obtain ⟨outer, -, houter⟩ := Option.map_eq_some_iff.1 h
      cases houter

/-- A value goes into the binding that the name stands for, and nothing else changes. -/
theorem assign_stores {stack : ScopeStack} {name : String} {level : Nat} {binding : Binding}
    (h : Resolves stack.toList name level binding) (item : Item) :
    ∃ changed, stack.assign name item = .ok changed ∧ Stores level name item stack.toList changed.toList := by
  obtain ⟨later, hlater, hstores⟩ := assignFirst?_stores h item
  obtain ⟨changed, hassign, rfl⟩ := assign_of_assignFirst? hlater
  exact ⟨changed, hassign, hstores⟩

/-! ## What holds of all values -/

/-- The value of every binding on the stack has the property. -/
def Holds (q : Item → Prop) (stack : ScopeStack) : Prop :=
  ∀ level name binding, bindingAt? stack.toList level name = some binding → q binding.item

namespace Holds

variable {q : Item → Prop} {stack changed : ScopeStack}

theorem lookup? (h : stack.Holds q) {name : String} {binding : Binding} (hfind : stack.lookup? name = some binding) :
    q binding.item := by
  obtain ⟨level, hresolves⟩ := lookup?_eq_some_iff.1 hfind
  exact h level name binding hresolves.found

theorem push (h : stack.Holds q) : stack.push.Holds q := by
  intro level name binding hfound
  cases level with
  | zero => cases hfound
  | succ level => exact h level name binding hfound

theorem pop (h : stack.Holds q) (hpop : stack.pop = .ok changed) : changed.Holds q := by
  obtain ⟨innermost, outer⟩ := stack
  cases outer with
  | nil => cases hpop
  | cons scope outer =>
    cases hpop
    exact fun level => h (level + 1)

theorem cons {binding : Binding} (h : stack.Holds q) (hbinding : q binding.item) :
    Holds q { stack with innermost := binding :: stack.innermost } := by
  intro level name found hfound
  cases level with
  | zero =>
    change List.find? (·.name = name) (binding :: stack.innermost) = some found at hfound
    by_cases hname : binding.name = name
    · rw [List.find?_cons_of_pos (by simpa using hname)] at hfound
      cases hfound
      exact hbinding
    · rw [List.find?_cons_of_neg (by simpa using hname)] at hfound
      exact h 0 name found hfound
  | succ level => exact h (level + 1) name found hfound

theorem declare {binding : Binding} (h : stack.Holds q) (hbinding : q binding.item)
    (hdeclare : stack.declare binding = .ok changed) : changed.Holds q := by
  rw [ScopeStack.declare] at hdeclare
  split at hdeclare
  · cases hdeclare
  · cases hdeclare
    exact h.cons hbinding

theorem stores {level : Nat} {name : String} {item : Item} (h : stack.Holds q) (hitem : q item)
    (hstores : Stores level name item stack.toList changed.toList) : changed.Holds q := by
  intro l n binding hfound
  by_cases hplace : l = level ∧ n = name
  · obtain ⟨rfl, rfl⟩ := hplace
    rw [hstores.stored] at hfound
    obtain ⟨old, -, rfl⟩ := Option.map_eq_some_iff.1 hfound
    exact hitem
  · rw [hstores.other l n hplace] at hfound
    exact h l n binding hfound

theorem assign {name : String} {item : Item} (h : stack.Holds q) (hitem : q item)
    (hassign : stack.assign name item = .ok changed) : changed.Holds q := by
  cases hfind : stack.lookup? name with
  | none =>
    rw [ScopeStack.assign, assignFirst?_eq_none_iff.2 hfind] at hassign
    cases hassign
  | some binding =>
    obtain ⟨level, hresolves⟩ := lookup?_eq_some_iff.1 hfind
    obtain ⟨stored, hstored, hstores⟩ := assign_stores hresolves item
    rw [hstored] at hassign
    cases hassign
    exact h.stores hitem hstores

end Holds

end ScopeStack

end GradualScript
