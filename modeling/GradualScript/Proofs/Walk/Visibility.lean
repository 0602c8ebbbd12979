import GradualScript.Proofs.Tandem.Single
import GradualScript.Proofs.Walk.Comparison

/-!
# Only the visible bindings matter

Two stacks of scopes in which every name stands for the same binding may differ in their depth and in what is shadowed.
A program does the same in both, and in neither does it change what was shadowed.

* `ScopeStack.LooksLike` : every name stands for the same binding;
* `Scope.KeepsShadowed` : the same names in the same scopes, and the shadowed bindings unchanged;
* `ScopeStack.Overlaid` : two such stacks below scopes that both runs have opened (`tandem_overlaid`);
* `evaluate_visible` : programs in two such contexts.
-/

set_option autoImplicit false

namespace GradualScript

open Scope (bindingAt? Shadowed Resolves Stores)

/-- Every name stands for the same binding in both stacks. -/
def ScopeStack.LooksLike (stack other : ScopeStack) : Prop :=
  ∀ name, other.lookup? name = stack.lookup? name

namespace Scope

/-- The same names in the same scopes. What was shadowed is as it was. -/
structure KeepsShadowed (scopes later : List Scope) : Prop where
  length : later.length = scopes.length
  names : ∀ level name, (bindingAt? later level name).isSome = (bindingAt? scopes level name).isSome
  shadowed : ∀ level name, Shadowed scopes level name → bindingAt? later level name = bindingAt? scopes level name

theorem KeepsShadowed.refl (scopes : List Scope) : KeepsShadowed scopes scopes :=
  ⟨rfl, fun _ _ => rfl, fun _ _ _ => rfl⟩

theorem KeepsShadowed.ne_nil {scopes later : List Scope} (h : KeepsShadowed scopes later) (hscopes : scopes ≠ []) :
    later ≠ [] := by
  rw [← List.length_pos_iff] at hscopes ⊢
  rw [h.length]
  exact hscopes

/-- A value is stored in a binding that is visible, and so was at the start. -/
theorem KeepsShadowed.store {start scopes later : List Scope} {name : String} {level : Nat} {binding : Binding}
    {item : Item} (h : KeepsShadowed start scopes) (hresolves : Resolves scopes name level binding)
    (hstores : Stores level name item scopes later) : KeepsShadowed start later where
  length := hstores.length.trans h.length
  names := by
    intro l n
    rw [← h.names l n]
    by_cases hplace : l = level ∧ n = name
    · obtain ⟨rfl, rfl⟩ := hplace
      rw [hstores.stored, Option.isSome_map]
    · rw [hstores.other l n hplace]
  shadowed := by
    intro l n hshadowed
    rw [← h.shadowed l n hshadowed]
    refine hstores.other l n ?_
    rintro ⟨rfl, rfl⟩
    obtain ⟨inner, hlt, hsome⟩ := hshadowed
    exact hresolves.visible ⟨inner, hlt, (h.names inner n).trans hsome⟩

/-- Two lists of scopes in which every name stands for the same binding, each as it was at the start where that was
shadowed. -/
structure Matching (start start' scopes scopes' : List Scope) : Prop where
  kept : KeepsShadowed start scopes
  kept' : KeepsShadowed start' scopes'
  same : ∀ name, scopes'.findSome? (·.find? name) = scopes.findSome? (·.find? name)

/-- A value that is stored under a name goes into one binding of each list, and both look alike again. -/
theorem Matching.assign {start start' scopes scopes' : List Scope} {name : String} {binding : Binding}
    (h : Matching start start' scopes scopes') (hfind : scopes.findSome? (·.find? name) = some binding) (item : Item) :
    ∃ later later', ScopeStack.assignFirst? name item scopes = some later ∧
      ScopeStack.assignFirst? name item scopes' = some later' ∧ Matching start start' later later' := by
  obtain ⟨level, hresolves⟩ := findSome?_eq_some_iff.1 hfind
  obtain ⟨level', hresolves'⟩ := findSome?_eq_some_iff.1 ((h.same name).trans hfind)
  obtain ⟨later, hlater, hstores⟩ := assignFirst?_stores hresolves item
  obtain ⟨later', hlater', hstores'⟩ := assignFirst?_stores hresolves' item
  refine ⟨later, later', hlater, hlater', h.kept.store hresolves hstores, h.kept'.store hresolves' hstores',
    fun other => ?_⟩
  rw [hstores.findSome? hresolves, hstores'.findSome? hresolves', h.same]

theorem length_of_assignFirst? {scopes changed : List Scope} {name : String} {item : Item}
    (h : ScopeStack.assignFirst? name item scopes = some changed) : changed.length = scopes.length := by
  cases hfind : scopes.findSome? (·.find? name) with
  | none =>
    rw [ScopeStack.assignFirst?_eq_none_iff.2 hfind] at h
    cases h
  | some binding =>
    obtain ⟨level, hresolves⟩ := findSome?_eq_some_iff.1 hfind
    obtain ⟨later, hlater, hstores⟩ := assignFirst?_stores hresolves item
    rw [hlater] at h
    cases h
    exact hstores.length

end Scope

namespace ScopeStack

open Scope (KeepsShadowed Matching)

variable {start start' : List Scope}

/-- The `k` innermost scopes are the same in both stacks, and the scopes around them match. -/
def Overlaid (start start' : List Scope) (k : Nat) (stack other : ScopeStack) : Prop :=
  ∃ inner outer outer', inner.length = k ∧ stack.toList = inner ++ outer ∧ other.toList = inner ++ outer' ∧
    Matching start start' outer outer'

theorem Overlaid.looksLike {k : Nat} {stack other : ScopeStack} (h : Overlaid start start' k stack other) :
    stack.LooksLike other := by
  obtain ⟨inner, outer, outer', -, hstack, hother, hmatching⟩ := h
  intro name
  rw [lookup?, lookup?, hstack, hother, List.findSome?_append, List.findSome?_append, hmatching.same]

theorem Overlaid.assign {k : Nat} {stack other : ScopeStack} {name : String} {binding : Binding}
    (h : Overlaid start start' k stack other) (hfind : stack.lookup? name = some binding) (item : Item) :
    ∃ changed changed', stack.assign name item = .ok changed ∧ other.assign name item = .ok changed' ∧
      Overlaid start start' k changed changed' := by
  obtain ⟨inner, outer, outer', hlength, hstack, hother, hmatching⟩ := h
  cases hinner : assignFirst? name item inner with
  | some later =>
    -- the name is bound in a scope that both runs have opened
    have happend : ∀ scopes, assignFirst? name item (inner ++ scopes) = some (later ++ scopes) := by
      intro scopes
      rw [Scope.assignFirst?_append, hinner]
    obtain ⟨changed, hassign, hchanged⟩ := assign_of_assignFirst? (hstack ▸ happend outer)
    obtain ⟨changed', hassign', hchanged'⟩ := assign_of_assignFirst? (hother ▸ happend outer')
    exact ⟨changed, changed', hassign, hassign', later, outer, outer',
      (Scope.length_of_assignFirst? hinner).trans hlength, hchanged, hchanged', hmatching⟩
  | none =>
    -- the name is bound further outside, at a depth that may differ
    rw [lookup?, hstack, List.findSome?_append, assignFirst?_eq_none_iff.1 hinner] at hfind
    obtain ⟨later, later', hlater, hlater', hmatching⟩ := hmatching.assign hfind item
    have happend : ∀ {scopes changed}, assignFirst? name item scopes = some changed →
        assignFirst? name item (inner ++ scopes) = some (inner ++ changed) := by
      intro scopes changed hchanged
      rw [Scope.assignFirst?_append, hinner, hchanged]
      rfl
    obtain ⟨changed, hassign, hchanged⟩ := assign_of_assignFirst? (hstack ▸ happend hlater)
    obtain ⟨changed', hassign', hchanged'⟩ := assign_of_assignFirst? (hother ▸ happend hlater')
    exact ⟨changed, changed', hassign, hassign', inner, later, later', hlength, hchanged, hchanged', hmatching⟩

/-- A stack of a scope and those around it. -/
theorem toList_eq_cons {stack : ScopeStack} {scope : Scope} {scopes : List Scope} :
    stack.toList = scope :: scopes ↔ stack = ⟨scope, scopes⟩ := by
  cases stack
  simp [toList]

theorem pop_of_toList {stack : ScopeStack} {scope : Scope} {scopes : List Scope} (h : stack.toList = scope :: scopes)
    (hne : scopes ≠ []) : ∃ outer, stack.pop = .ok outer ∧ outer.toList = scopes := by
  cases toList_eq_cons.1 h
  cases scopes with
  | nil => exact absurd rfl hne
  | cons next rest => exact ⟨⟨next, rest⟩, rfl, rfl⟩

/-- All that a program does with scopes it does in both stacks alike. -/
theorem tandem_overlaid (hstart : start ≠ []) (hstart' : start' ≠ []) :
    Tandem (Overlaid start start') fun _ => True where
  captures _ _ := trivial
  lookup? h := h.looksLike
  bodiesIn _ _ _ _ := trivial
  assign h hfind _ := h.assign hfind _
  push := by
    rintro k stack other ⟨inner, outer, outer', hlength, hstack, hother, hmatching⟩
    refine ⟨[] :: inner, outer, outer', congrArg (· + 1) hlength, ?_, ?_, hmatching⟩
    · rw [push, hstack]
      rfl
    · rw [push, hother]
      rfl
  pop := by
    rintro k stack other ⟨inner, outer, outer', hlength, hstack, hother, hmatching⟩
    obtain ⟨scope, inner, rfl⟩ := List.exists_cons_of_length_eq_add_one hlength
    obtain ⟨popped, hpop, hpopped⟩ :=
      pop_of_toList hstack (List.append_ne_nil_of_right_ne_nil inner (hmatching.kept.ne_nil hstart))
    obtain ⟨popped', hpop', hpopped'⟩ :=
      pop_of_toList hother (List.append_ne_nil_of_right_ne_nil inner (hmatching.kept'.ne_nil hstart'))
    exact ⟨popped, popped', hpop, hpop', inner, outer, outer', Nat.succ.inj hlength, hpopped, hpopped', hmatching⟩
  declare k := by
    rintro stack other binding ⟨inner, outer, outer', hlength, hstack, hother, hmatching⟩ -
    obtain ⟨scope, inner, rfl⟩ := List.exists_cons_of_length_eq_add_one hlength
    cases toList_eq_cons.1 hstack
    cases toList_eq_cons.1 hother
    rw [declare, declare]
    dsimp only
    split
    · exact .inl ⟨_, rfl, rfl⟩
    · exact .inr ⟨_, _, rfl, rfl, (binding :: scope) :: inner, outer, outer', hlength, rfl, rfl, hmatching⟩

/-- Where neither run has a scope of its own open, the stacks themselves match. -/
theorem Overlaid.matching {stack other : ScopeStack} (h : Overlaid start start' 0 stack other) :
    Matching start start' stack.toList other.toList := by
  obtain ⟨inner, outer, outer', hlength, hstack, hother, hmatching⟩ := h
  cases List.length_eq_zero_iff.1 hlength
  rw [hstack, hother]
  exact hmatching

end ScopeStack

open Scope (KeepsShadowed)

/-- The scopes that two runs leave behind look alike, and neither run has changed what was shadowed when it began. -/
structure Context.StaysAlike (context other after after' : Context) : Prop where
  looksLike : after.scopes.LooksLike after'.scopes
  shadowed : KeepsShadowed context.scopes.toList after.scopes.toList
  shadowed' : KeepsShadowed other.scopes.toList after'.scopes.toList

/-- In two contexts whose scopes look alike, a program gives the same value or the same failure. The scopes look alike
again at the end, and what was shadowed in one of the contexts is as it was there. -/
theorem evaluate_visible (context other : Context) (text : String) (hregistry : other.registry = context.registry)
    (hconfig : other.config = context.config) (hdepth : other.callDepth = context.callDepth)
    (hlooks : context.scopes.LooksLike other.scopes) :
    Alike (fun _ => True) (context.StaysAlike other) (context.StaysAlike other) (fun _ => True)
      (evaluate text context) (evaluate text other) := by
  have hS := ScopeStack.tandem_overlaid (List.cons_ne_nil _ _ : context.scopes.toList ≠ [])
    (List.cons_ne_nil _ _ : other.scopes.toList ≠ [])
  have habreast : Context.Abreast (ScopeStack.Overlaid context.scopes.toList other.scopes.toList) (fun _ => True) 0
      context.room context other :=
    { context.bodiesIn_true.abreast with
      registry := hregistry
      config := hconfig
      callDepth := hdepth
      scopes := ⟨[], _, _, rfl, rfl, rfl, .refl _, .refl _, hlooks⟩ }
  have hroom : context.room ≤ other.room := by
    rw [Context.room, Context.room, hconfig, hdepth]
  have hpaired : context.executor.Paired (ScopeStack.Overlaid context.scopes.toList other.scopes.toList)
      (fun _ => True) context.room other.executor := by
    rw [Context.executor, Executor.block_eq_within]
    exact Executor.paired_executor hS (fun _ => Nat.le_refl _) (Nat.lt_succ_self _) hroom
  have hgoes := goes_evaluateWith hpaired (fun _ _ => trivial) text habreast
  have hend : ∀ after after' : Context, Context.Abreast
      (ScopeStack.Overlaid context.scopes.toList other.scopes.toList) (fun _ => True) 0 context.room after after' →
        context.StaysAlike other after after' :=
    fun after after' h => ⟨h.scopes.looksLike, h.scopes.matching.kept, h.scopes.matching.kept'⟩
  exact hgoes.imp (fun _ _ => trivial) hend hend fun _ _ => trivial

/-- A function with the body `x = !x; return x`, which stores a value in a variable of its caller. -/
def togglingFunction : Function where
  parameters := []
  body := [⟨.name, "x", .null⟩, ⟨.assignment, "=", .null⟩, ⟨.operator, "!", .null⟩, ⟨.name, "x", .null⟩,
    ⟨.semicolon, ";", .null⟩, ⟨.keyword, "return", .null⟩, ⟨.name, "x", .null⟩, Token.eof]
  returnTypes := .any
  startLine := 0
  mark := none

/-- A variable `x` and the function `f` in one scope. -/
def flatContext (x : Bool) : Context where
  scopes := ⟨[⟨"x", true, .any, .bool x⟩, ⟨"f", false, .any, .function togglingFunction⟩], []⟩
  registry := .empty
  config := default
  callDepth := 0

/-- The same variable in a scope of its own, which shadows another one, and the function further outside. -/
def layeredContext (x : Bool) : Context :=
  { flatContext x with
    scopes := ⟨[⟨"x", true, .any, .bool x⟩],
      [[⟨"x", true, .any, .unit⟩], [⟨"f", false, .any, .function togglingFunction⟩, ⟨"x", false, .any, .bool x⟩]]⟩ }

theorem looksLike_layered (x : Bool) : (flatContext x).scopes.LooksLike (layeredContext x).scopes := by
  intro name
  by_cases hx : "x" = name
  · subst hx
    rfl
  by_cases hf : "f" = name
  · subst hf
    rfl
  · simp [layeredContext, flatContext, ScopeStack.lookup?, ScopeStack.toList, Scope.find?, hx, hf]

/-- The function is found at different depths, and stores its value at different depths. -/
theorem evaluate_visible_layered :
    evaluate "f()" (flatContext true) = .ok (.bool false) (flatContext false) ∧
      (flatContext true).scopes.LooksLike (layeredContext true).scopes ∧
      Alike (fun _ => True) ((flatContext true).StaysAlike (layeredContext true))
        ((flatContext true).StaysAlike (layeredContext true)) (fun _ => True)
        (evaluate "f()" (flatContext true)) (evaluate "f()" (layeredContext true)) :=
  ⟨Comparable.eq_of_same (by decide +kernel), looksLike_layered true,
    evaluate_visible _ _ "f()" rfl rfl rfl (looksLike_layered true)⟩

end GradualScript
