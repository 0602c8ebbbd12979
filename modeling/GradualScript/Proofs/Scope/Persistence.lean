import Mathlib.Data.List.Forall2
import GradualScript.Context
import GradualScript.Proofs.Run

/-!
# What persists in scopes

* `Binding.Persists` : the same variable with another value, or the same constant;
* `Scope.Persists`, `ScopeStack.Persists`, `Context.Persists` : the same bindings in this sense, in the same scopes;
* `Scope.Grows`, `Context.Grows` : the same in the outer scopes, and new bindings may be before the old ones in the
  innermost one;
* `assign_persists` : storing a value in a variable changes nothing else;
* `keeps_inScope` : a scope of its own hides what was declared in it.
-/

set_option autoImplicit false

namespace GradualScript

/-- Relations between the entries of two lists, from one to the next list. -/
instance lasting_forall₂ {α : Type} {R : α → α → Prop} [hR : Lasting R] : Lasting (List.Forall₂ R) where
  refl l := List.forall₂_same.2 fun a _ => hR.refl a
  trans := by
    intro l m n hlm hmn
    induction hlm generalizing n with
    | nil => exact hmn
    | cons hab _ ih =>
      obtain ⟨c, n', hbc, hrest, rfl⟩ := List.forall₂_cons_left_iff.1 hmn
      exact .cons (hR.trans hab hbc) (ih hrest)

/-- The same name with the same types; the value is the same if it is a constant. -/
structure Binding.Persists (binding later : Binding) : Prop where
  name : later.name = binding.name
  isMutable : later.isMutable = binding.isMutable
  types : later.types = binding.types
  item : binding.isMutable = false → later.item = binding.item

instance Binding.lasting_persists : Lasting Binding.Persists where
  refl _ := ⟨rfl, rfl, rfl, fun _ => rfl⟩
  trans h h' := ⟨h'.name.trans h.name, h'.isMutable.trans h.isMutable, h'.types.trans h.types,
    fun hc => (h'.item (h.isMutable.trans hc)).trans (h.item hc)⟩

namespace Scope

/-- The same bindings in the same order. -/
abbrev Persists (scope later : Scope) : Prop := List.Forall₂ Binding.Persists scope later

/-- A name has a binding in both scopes, or in neither. -/
theorem Persists.find? {scope later : Scope} (h : scope.Persists later) (name : String) :
    (scope.find? name = none ∧ later.find? name = none) ∨
      ∃ binding binding', scope.find? name = some binding ∧ later.find? name = some binding' ∧
        binding.Persists binding' := by
  unfold Scope.find?
  induction h with
  | nil => exact .inl ⟨rfl, rfl⟩
  | @cons binding binding' rest rest' hb _ ih =>
    by_cases hname : binding.name = name
    · refine .inr ⟨binding, binding', ?_, ?_, hb⟩
      · exact List.find?_cons_of_pos (by simpa using hname)
      · exact List.find?_cons_of_pos (by simpa [hb.name] using hname)
    · rw [List.find?_cons_of_neg (by simpa using hname), List.find?_cons_of_neg (by simpa [hb.name] using hname)]
      exact ih

theorem assign?_eq_none_iff {scope : Scope} {name : String} {item : Item} :
    scope.assign? name item = none ↔ scope.find? name = none := by
  unfold Scope.find?
  induction scope with
  | nil => exact ⟨fun _ => rfl, fun _ => rfl⟩
  | cons binding rest ih =>
    rw [assign?]
    by_cases hname : binding.name = name
    · rw [if_pos hname, List.find?_cons_of_pos (by simpa using hname)]
      exact ⟨fun h => (by cases h), fun h => (by cases h)⟩
    · rw [if_neg hname, List.find?_cons_of_neg (by simpa using hname), Option.map_eq_none_iff, ih]

theorem exists_find?_of_assign? {scope changed : Scope} {name : String} {item : Item}
    (h : scope.assign? name item = some changed) : ∃ binding, scope.find? name = some binding := by
  cases hfind : scope.find? name with
  | some binding => exact ⟨binding, rfl⟩
  | none =>
    rw [assign?_eq_none_iff.2 hfind] at h
    cases h

/-- A value that is stored in a variable is all that changes. -/
theorem assign?_persists {scope changed : Scope} {name : String} {item : Item} {binding : Binding}
    (hfind : scope.find? name = some binding) (hmutable : binding.isMutable = true)
    (h : scope.assign? name item = some changed) : scope.Persists changed := by
  unfold Scope.find? at hfind
  induction scope generalizing changed with
  | nil => cases h
  | cons first rest ih =>
    rw [assign?] at h
    by_cases hname : first.name = name
    · rw [if_pos hname] at h
      cases h
      rw [List.find?_cons_of_pos (by simpa using hname)] at hfind
      cases hfind
      refine .cons ⟨rfl, rfl, rfl, fun hc => ?_⟩ (lasting_forall₂.refl rest)
      rw [hmutable] at hc
      cases hc
    · rw [if_neg hname] at h
      obtain ⟨rest', hrest, rfl⟩ := Option.map_eq_some_iff.1 h
      rw [List.find?_cons_of_neg (by simpa using hname)] at hfind
      exact .cons (Binding.lasting_persists.refl first) (ih hfind hrest)

/-- The same bindings, with new ones of other names before them. -/
inductive Grows (scope : Scope) : Scope → Prop where
  | persists {later : Scope} : scope.Persists later → Grows scope later
  | declared {later : Scope} (binding : Binding) :
    later.find? binding.name = none → Grows scope later → Grows scope (binding :: later)

theorem Grows.trans_persists {scope later last : Scope} (h : scope.Grows later) (h' : later.Persists last) :
    scope.Grows last := by
  induction h generalizing last with
  | persists h => exact .persists (lasting_forall₂.trans h h')
  | declared binding hnew _ ih =>
    obtain ⟨binding', rest, hb, hrest, rfl⟩ := List.forall₂_cons_left_iff.1 h'
    refine .declared binding' ?_ (ih hrest)
    rw [hb.name]
    rcases Persists.find? hrest binding.name with ⟨-, hnone⟩ | ⟨found, _, hfound, -⟩
    · exact hnone
    · rw [hnew] at hfound
      cases hfound

instance lasting_grows : Lasting Grows where
  refl scope := .persists (lasting_forall₂.refl scope)
  trans h h' := by
    induction h' with
    | persists h' => exact h.trans_persists h'
    | declared binding hnew _ ih => exact .declared binding hnew ih

/-- A name that is bound stays bound, to the same binding up to its value. -/
theorem Grows.find? {scope later : Scope} (h : scope.Grows later) {name : String} {binding : Binding}
    (hfind : scope.find? name = some binding) :
    ∃ binding', later.find? name = some binding' ∧ binding.Persists binding' := by
  induction h with
  | persists h =>
    rcases h.find? name with ⟨hnone, -⟩ | ⟨found, found', hfound, hfound', hb⟩
    · rw [hnone] at hfind
      cases hfind
    · rw [hfound] at hfind
      cases hfind
      exact ⟨found', hfound', hb⟩
  | @declared later new hnew _ ih =>
    obtain ⟨found, hfound, hb⟩ := ih
    refine ⟨found, ?_, hb⟩
    have hname : new.name ≠ name := by
      rintro rfl
      rw [hnew] at hfound
      cases hfound
    unfold Scope.find? at hfound ⊢
    rw [List.find?_cons_of_neg (by simpa using hname)]
    exact hfound

end Scope

namespace ScopeStack

/-- The same scopes with the same bindings. -/
def Persists (stack later : ScopeStack) : Prop :=
  List.Forall₂ Scope.Persists stack.toList later.toList

instance lasting_persists : Lasting Persists where
  refl stack := lasting_forall₂.refl stack.toList
  trans h h' := lasting_forall₂.trans h h'

/-- A name stands for the same binding, up to its value. -/
theorem Persists.lookup? {stack later : ScopeStack} (h : stack.Persists later) (name : String) :
    (stack.lookup? name = none ∧ later.lookup? name = none) ∨
      ∃ binding binding', stack.lookup? name = some binding ∧ later.lookup? name = some binding' ∧
        binding.Persists binding' := by
  unfold Persists at h
  unfold ScopeStack.lookup?
  generalize stack.toList = scopes, later.toList = scopes' at h ⊢
  induction h with
  | nil => exact .inl ⟨rfl, rfl⟩
  | cons hscope _ ih =>
    rw [List.findSome?_cons, List.findSome?_cons]
    rcases hscope.find? name with ⟨hnone, hnone'⟩ | ⟨binding, binding', hsome, hsome', hb⟩
    · rw [hnone, hnone']
      exact ih
    · rw [hsome, hsome']
      exact .inr ⟨binding, binding', rfl, rfl, hb⟩

theorem assignFirst?_eq_none_iff {name : String} {item : Item} {scopes : List Scope} :
    assignFirst? name item scopes = none ↔ scopes.findSome? (·.find? name) = none := by
  induction scopes with
  | nil => exact ⟨fun _ => rfl, fun _ => rfl⟩
  | cons scope outer ih =>
    rw [assignFirst?, List.findSome?_cons]
    cases hassign : scope.assign? name item with
    | some changed =>
      obtain ⟨binding, hfind⟩ := Scope.exists_find?_of_assign? hassign
      rw [hfind]
      exact ⟨fun h => (by cases h), fun h => (by cases h)⟩
    | none =>
      rw [Scope.assign?_eq_none_iff.1 hassign]
      exact Option.map_eq_none_iff.trans ih

theorem assignFirst?_persists {scopes changed : List Scope} {name : String} {item : Item} {binding : Binding}
    (hfind : scopes.findSome? (·.find? name) = some binding) (hmutable : binding.isMutable = true)
    (h : assignFirst? name item scopes = some changed) : List.Forall₂ Scope.Persists scopes changed := by
  induction scopes generalizing changed with
  | nil => cases h
  | cons scope outer ih =>
    rw [assignFirst?] at h
    rw [List.findSome?_cons] at hfind
    cases hassign : scope.assign? name item with
    | some scope' =>
      rw [hassign] at h
      cases h
      obtain ⟨found, hfound⟩ := Scope.exists_find?_of_assign? hassign
      rw [hfound] at hfind
      cases hfind
      exact .cons (Scope.assign?_persists hfound hmutable hassign)
        (lasting_forall₂.refl outer)
    | none =>
      rw [hassign] at h
      rw [Scope.assign?_eq_none_iff.1 hassign] at hfind
      obtain ⟨outer', houter, rfl⟩ := Option.map_eq_some_iff.1 h
      exact .cons (lasting_forall₂.refl scope) (ih hfind houter)

/-- A value can be stored under a name that has a binding. -/
theorem exists_assign {stack : ScopeStack} {name : String} {binding : Binding}
    (h : stack.lookup? name = some binding) (item : Item) : ∃ changed, stack.assign name item = .ok changed := by
  rw [assign]
  cases hassign : assignFirst? name item stack.toList with
  | none =>
    rw [lookup?, assignFirst?_eq_none_iff.1 hassign] at h
    cases h
  | some scopes =>
    cases scopes with
    | nil =>
      rw [toList, assignFirst?] at hassign
      split at hassign
      · cases hassign
      · obtain ⟨outer, -, houter⟩ := Option.map_eq_some_iff.1 hassign
        cases houter
    | cons innermost outer => exact ⟨_, rfl⟩

theorem assign_persists {stack changed : ScopeStack} {name : String} {item : Item} {binding : Binding}
    (hfind : stack.lookup? name = some binding) (hmutable : binding.isMutable = true)
    (h : stack.assign name item = .ok changed) : stack.Persists changed := by
  rw [assign] at h
  split at h
  · rename_i innermost outer hassign
    cases h
    exact assignFirst?_persists hfind hmutable hassign
  · cases h

end ScopeStack

namespace Context

/-- The same scopes with the same bindings, and the rest unchanged. -/
structure Persists (context later : Context) : Prop where
  scopes : context.scopes.Persists later.scopes
  registry : later.registry = context.registry
  config : later.config = context.config
  callDepth : later.callDepth = context.callDepth

instance lasting_persists : Lasting Persists where
  refl context := ⟨ScopeStack.lasting_persists.refl context.scopes, rfl, rfl, rfl⟩
  trans h h' := ⟨ScopeStack.lasting_persists.trans h.scopes h'.scopes, h'.registry.trans h.registry,
    h'.config.trans h.config, h'.callDepth.trans h.callDepth⟩

/-- The innermost scope may have new bindings, and all else persists. -/
structure Grows (context later : Context) : Prop where
  innermost : context.scopes.innermost.Grows later.scopes.innermost
  outer : List.Forall₂ Scope.Persists context.scopes.outer later.scopes.outer
  registry : later.registry = context.registry
  config : later.config = context.config
  callDepth : later.callDepth = context.callDepth

instance lasting_grows : Lasting Grows where
  refl _ := ⟨Scope.lasting_grows.refl _, lasting_forall₂.refl _, rfl, rfl, rfl⟩
  trans h h' := ⟨Scope.lasting_grows.trans h.innermost h'.innermost,
    lasting_forall₂.trans h.outer h'.outer, h'.registry.trans h.registry,
    h'.config.trans h.config, h'.callDepth.trans h.callDepth⟩

theorem Persists.grows {context later : Context} (h : context.Persists later) : context.Grows later := by
  obtain ⟨hinnermost, houter⟩ := List.forall₂_cons.1 h.scopes
  exact ⟨.persists hinnermost, houter, h.registry, h.config, h.callDepth⟩

/-- What is left when the innermost of the scopes is dropped, which was opened before. -/
theorem Grows.pop {context after : Context}
    (h : Grows { context with scopes := context.scopes.push } after) :
    ∃ scopes, after.scopes.pop = .ok scopes ∧ context.Persists { after with scopes } := by
  have houter : List.Forall₂ Scope.Persists context.scopes.toList after.scopes.outer := h.outer
  rw [ScopeStack.pop]
  cases hafter : after.scopes.outer with
  | nil =>
    rw [hafter] at houter
    cases houter
  | cons innermost outer =>
    rw [hafter] at houter
    exact ⟨_, rfl, houter, h.registry, h.config, h.callDepth⟩

end Context

namespace ContextM

variable {α : Type}

theorem keeps_declare (binding : Binding) (line : Nat) : Keeps Context.Grows (declare binding line) := by
  intro context
  unfold declare
  cases hdeclare : context.scopes.declare binding with
  | error kind => exact Context.lasting_grows.refl context
  | ok scopes =>
    rw [ScopeStack.declare] at hdeclare
    split at hdeclare
    · cases hdeclare
    · rename_i hnew
      cases hdeclare
      exact ⟨.declared binding (by simpa using hnew) (Scope.lasting_grows.refl _), lasting_forall₂.refl _, rfl,
        rfl, rfl⟩

theorem keeps_declareAll (line : Nat) (bindings : List Binding) :
    Keeps Context.Grows (declareAll line bindings) := by
  induction bindings with
  | nil => exact Keeps.pure ()
  | cons binding rest ih => exact Keeps.bind (keeps_declare binding line) fun _ => ih

/-- A scope that was opened before can be dropped. -/
theorem popScope_of_grows {context after : Context}
    (h : Context.Grows { context with scopes := context.scopes.push } after) :
    ∃ scopes, popScope after = .ok () { after with scopes } ∧ context.Persists { after with scopes } := by
  obtain ⟨scopes, hpop, hpersists⟩ := h.pop
  refine ⟨scopes, ?_, hpersists⟩
  rw [popScope, hpop]

/-- What is declared in a scope of its own is gone at the end, on every way out. -/
theorem keeps_inScope {body : ContextM α} (h : Keeps Context.Grows body) : Keeps Context.Persists (inScope body) := by
  intro context
  unfold inScope
  cases hbody : body { context with scopes := context.scopes.push } with
  | ok a after =>
    obtain ⟨scopes, hrun, hpersists⟩ := popScope_of_grows (h.ok hbody)
    simp only [bind_of_ok hrun]
    exact hpersists
  | error failure after =>
    obtain ⟨scopes, hrun, hpersists⟩ := popScope_of_grows (h.error hbody)
    simp only [bind_of_ok hrun]
    exact hpersists

/-- The depth of calls is given back on every way out. -/
theorem keeps_inCall {body : ContextM α} (line : Nat) (h : Keeps Context.Persists body) :
    Keeps Context.Persists (inCall line body) := by
  intro context
  unfold inCall
  split
  · exact Context.lasting_persists.refl context
  · cases hbody : body { context with callDepth := context.callDepth + 1 } with
    | ok a after =>
      have hpersists := h.ok hbody
      exact ⟨hpersists.scopes, hpersists.registry, hpersists.config, congrArg (· - 1) hpersists.callDepth⟩
    | error failure after =>
      have hpersists := h.error hbody
      exact ⟨hpersists.scopes, hpersists.registry, hpersists.config, congrArg (· - 1) hpersists.callDepth⟩

end ContextM

end GradualScript
