import Mathlib.Data.List.Induction
import GradualScript.Proofs.Scope.Levels

/-!
# Scopes over whole runs

Scopes are opened and dropped, names are declared and values are stored, in any order. Between a scope that is opened
and the place where it is dropped, the scopes below it change in nothing but values, and these are the last ones that
were stored while no scope above had the name.

* `ScopeStack.Change`, `ScopeStack.run` : the four changes of a stack, one after another;
* `ScopeStack.bindingUp?` : the binding of a name in a scope counted from the global one, which is the same however many
  scopes are above it; `bindingUp?_push`, `change_pop`, `change_declare`, `bindingUp?_assign` say what becomes of it;
* `ScopeStack.Matched` : changes in which every scope that is opened is dropped, and no other;
* `ScopeStack.Reaches`, `ScopeStack.LeftWith` : a value that is stored in a binding, and the last of them;
* `ScopeStack.LeavesBelow` : what a block leaves of the scopes below (`leavesBelow_run`, `leavesBelow_block`);
* `scopes_over_runs` : what holds after every run from a stack that is new.
-/

set_option autoImplicit false

namespace GradualScript

open Scope (bindingAt? Shadowed Resolves Stores)

namespace ScopeStack

/-! ## Changes -/

/-- What can be done to a stack of scopes. -/
inductive Change where
  | push
  | pop
  | declare (binding : Binding)
  | assign (name : String) (item : Item)

/-- The stack that comes out, or the same one as before if there is none. -/
def orSame {ε : Type} (stack : ScopeStack) : Except ε ScopeStack → ScopeStack
  | .ok later => later
  | .error _ => stack

/-- The stack after a change. One that fails leaves it as it is. -/
def change (stack : ScopeStack) : Change → ScopeStack
  | .push => stack.push
  | .pop => stack.orSame stack.pop
  | .declare binding => stack.orSame (stack.declare binding)
  | .assign name item => stack.orSame (stack.assign name item)

/-- The stack after changes one after another. -/
def run (stack : ScopeStack) (changes : List Change) : ScopeStack :=
  changes.foldl change stack

def Change.isPush : Change → Bool
  | push => true
  | _ => false

def Change.isPop : Change → Bool
  | pop => true
  | _ => false

/-- No scope is dropped that was not opened by the changes before. -/
def Nested (changes : List Change) : Prop :=
  ∀ n, (changes.take n).countP Change.isPop ≤ (changes.take n).countP Change.isPush

/-- Every scope that is opened is dropped, and no other: what stands between a push and its pop. -/
structure Matched (changes : List Change) : Prop where
  nested : Nested changes
  closed : changes.countP Change.isPop = changes.countP Change.isPush

/-- The binding of a name in the scope at a height. The global scope is at the height zero. -/
def bindingUp? (stack : ScopeStack) (height : Nat) (name : String) : Option Binding :=
  bindingAt? stack.toList.reverse height name

/-- A scope above the height has the name. -/
def Hidden (stack : ScopeStack) (height : Nat) (name : String) : Prop :=
  ∃ above, height < above ∧ (stack.bindingUp? above name).isSome = true

variable {stack later : ScopeStack} {height : Nat} {name : String}

theorem run_append (stack : ScopeStack) (changes more : List Change) :
    stack.run (changes ++ more) = (stack.run changes).run more :=
  List.foldl_append

theorem run_concat (stack : ScopeStack) (changes : List Change) (last : Change) :
    stack.run (changes ++ [last]) = (stack.run changes).change last :=
  run_append stack changes [last]

theorem length_toList (stack : ScopeStack) : stack.toList.length = stack.depth :=
  rfl

/-! ## Bindings by their height -/

theorem bindingUp?_eq_ite (stack : ScopeStack) (height : Nat) (name : String) :
    stack.bindingUp? height name =
      if height = stack.outer.length then stack.innermost.find? name
      else bindingAt? stack.outer.reverse height name := by
  rw [bindingUp?, toList, List.reverse_cons, bindingAt?, bindingAt?, List.getElem?_append, List.length_reverse]
  by_cases hlt : height < stack.outer.length
  · rw [if_pos hlt, if_neg (by omega)]
  · rw [if_neg hlt]
    by_cases heq : height = stack.outer.length
    · rw [if_pos heq, heq, Nat.sub_self]
      rfl
    · have hnone : stack.outer.reverse[height]? = none := by
        rw [List.getElem?_eq_none_iff, List.length_reverse]
        omega
      rw [if_neg heq, hnone, List.getElem?_eq_none (by rw [List.length_singleton]; omega)]

/-- Heights are levels counted from the other end. -/
theorem bindingUp?_of_lt (h : height < stack.depth) (name : String) :
    stack.bindingUp? height name = bindingAt? stack.toList (stack.depth - 1 - height) name := by
  rw [bindingUp?, bindingAt?, bindingAt?, List.getElem?_reverse (by rwa [length_toList]), length_toList]

theorem bindingUp?_of_le (h : stack.depth ≤ height) (name : String) : stack.bindingUp? height name = none := by
  rw [bindingUp?, bindingAt?, List.getElem?_eq_none (by rwa [List.length_reverse, length_toList])]
  rfl

theorem lt_depth_of_bindingUp? {binding : Binding} (h : stack.bindingUp? height name = some binding) :
    height < stack.depth := by
  by_contra hle
  rw [bindingUp?_of_le (by omega)] at h
  cases h

theorem hidden_iff_shadowed (h : height < stack.depth) :
    stack.Hidden height name ↔ Shadowed stack.toList (stack.depth - 1 - height) name := by
  constructor
  · rintro ⟨above, hlt, hsome⟩
    obtain ⟨binding, hbinding⟩ := Option.isSome_iff_exists.1 hsome
    have habove : above < stack.depth := lt_depth_of_bindingUp? hbinding
    rw [bindingUp?_of_lt habove] at hsome
    exact ⟨_, by omega, hsome⟩
  · rintro ⟨inner, hlt, hsome⟩
    refine ⟨stack.depth - 1 - inner, by omega, ?_⟩
    have hinner : stack.depth - 1 - (stack.depth - 1 - inner) = inner := by omega
    rw [bindingUp?_of_lt (by omega), hinner]
    exact hsome

/-- A name stands for its highest binding. -/
theorem lookup?_eq_some_iff_height {binding : Binding} :
    stack.lookup? name = some binding ↔
      ∃ height, stack.bindingUp? height name = some binding ∧ ¬stack.Hidden height name := by
  rw [lookup?_eq_some_iff]
  constructor
  · rintro ⟨level, hfound, hvisible⟩
    have hlevel : level < stack.depth := by
      by_contra hle
      rw [bindingAt?, List.getElem?_eq_none (by rw [length_toList]; omega)] at hfound
      cases hfound
    have hback : stack.depth - 1 - (stack.depth - 1 - level) = level := by omega
    have hheight : stack.depth - 1 - level < stack.depth := by omega
    refine ⟨stack.depth - 1 - level, ?_, ?_⟩
    · rw [bindingUp?_of_lt hheight, hback]
      exact hfound
    · rw [hidden_iff_shadowed hheight, hback]
      exact hvisible
  · rintro ⟨height, hfound, hvisible⟩
    have hheight : height < stack.depth := lt_depth_of_bindingUp? hfound
    rw [bindingUp?_of_lt hheight] at hfound
    rw [hidden_iff_shadowed hheight] at hvisible
    exact ⟨_, hfound, hvisible⟩

/-! ## What each change does -/

theorem bindingUp?_push (stack : ScopeStack) : stack.push.bindingUp? = stack.bindingUp? := by
  funext height name
  rw [bindingUp?_eq_ite]
  show (if height = stack.toList.length then none else bindingAt? stack.toList.reverse height name) = _
  split
  · rename_i heq
    rw [bindingUp?_of_le (Nat.le_of_eq heq.symm)]
  · rfl

theorem pop_eq_error_iff : stack.pop = .error .globalScopeDropped ↔ stack.depth = 1 := by
  obtain ⟨innermost, outer⟩ := stack
  cases outer with
  | nil => exact ⟨fun _ => rfl, fun _ => rfl⟩
  | cons scope outer => exact ⟨nofun, fun h => absurd h (Nat.succ_ne_succ_iff.2 (Nat.succ_ne_zero _))⟩

/-- A scope can be dropped if there is one above the global one. -/
theorem change_pop (h : 1 < stack.depth) :
    (stack.change .pop).depth + 1 = stack.depth ∧
      ∀ height name, height < (stack.change .pop).depth →
        (stack.change .pop).bindingUp? height name = stack.bindingUp? height name := by
  obtain ⟨innermost, outer⟩ := stack
  cases outer with
  | nil => exact absurd h (Nat.lt_irrefl 1)
  | cons scope outer =>
    refine ⟨rfl, fun height name hlt => ?_⟩
    have hheight : height ≠ (scope :: outer).length := Nat.ne_of_lt hlt
    rw [bindingUp?_eq_ite ⟨innermost, scope :: outer⟩, if_neg hheight]
    rfl

theorem change_declare (stack : ScopeStack) (binding : Binding) :
    (stack.change (.declare binding)).depth = stack.depth ∧
      ∀ height name, height + 1 < stack.depth →
        (stack.change (.declare binding)).bindingUp? height name = stack.bindingUp? height name := by
  rw [change, ScopeStack.declare]
  split
  · exact ⟨rfl, fun _ _ _ => rfl⟩
  · refine ⟨rfl, fun height name hlt => ?_⟩
    have hheight : height ≠ stack.outer.length := by
      rw [depth] at hlt
      omega
    rw [orSame, bindingUp?_eq_ite, bindingUp?_eq_ite, if_neg hheight, if_neg hheight]

theorem change_assign_of_none (h : stack.lookup? name = none) (item : Item) :
    stack.change (.assign name item) = stack := by
  have hnone : assignFirst? name item stack.toList = none := assignFirst?_eq_none_iff.2 h
  rw [change, assign, hnone]
  rfl

theorem change_assign_of_resolves {level : Nat} {binding : Binding} (h : Resolves stack.toList name level binding)
    (item : Item) : Stores level name item stack.toList (stack.change (.assign name item)).toList := by
  obtain ⟨changed, hassign, hstores⟩ := assign_stores h item
  rw [change, hassign]
  exact hstores

theorem depth_change_assign (stack : ScopeStack) (name : String) (item : Item) :
    (stack.change (.assign name item)).depth = stack.depth := by
  cases hfind : stack.lookup? name with
  | none => rw [change_assign_of_none hfind]
  | some binding =>
    obtain ⟨level, hresolves⟩ := lookup?_eq_some_iff.1 hfind
    exact (change_assign_of_resolves hresolves item).length

/-- A value is stored in the binding of the name that no scope above hides. -/
theorem bindingUp?_assign {binding : Binding} (h : stack.bindingUp? height name = some binding)
    (hvisible : ¬stack.Hidden height name) (item : Item) :
    (stack.change (.assign name item)).bindingUp? height name = some { binding with item } := by
  have hheight : height < stack.depth := lt_depth_of_bindingUp? h
  have hresolves : Resolves stack.toList name (stack.depth - 1 - height) binding := by
    rw [bindingUp?_of_lt hheight] at h
    rw [hidden_iff_shadowed hheight] at hvisible
    exact ⟨h, hvisible⟩
  have hstored := (change_assign_of_resolves hresolves item).stored
  rw [hresolves.found] at hstored
  rw [bindingUp?_of_lt (by rwa [depth_change_assign]), depth_change_assign]
  exact hstored

/-- No other binding is changed. -/
theorem bindingUp?_assign_other {target : String} (item : Item)
    (h : name = target → stack.Hidden height name ∨ stack.bindingUp? height name = none) :
    (stack.change (.assign target item)).bindingUp? height name = stack.bindingUp? height name := by
  cases hfind : stack.lookup? target with
  | none => rw [change_assign_of_none hfind]
  | some binding =>
    obtain ⟨level, hresolves⟩ := lookup?_eq_some_iff.1 hfind
    have hstores := change_assign_of_resolves hresolves item
    by_cases hheight : height < stack.depth
    · rw [bindingUp?_of_lt (by rwa [depth_change_assign]), bindingUp?_of_lt hheight, depth_change_assign]
      refine hstores.other _ _ ?_
      rintro ⟨rfl, rfl⟩
      rcases h rfl with hhidden | hnone
      · exact hresolves.visible ((hidden_iff_shadowed hheight).1 hhidden)
      · rw [bindingUp?_of_lt hheight, hresolves.found] at hnone
        cases hnone
    · rw [bindingUp?_of_le (by rw [depth_change_assign]; omega), bindingUp?_of_le (by omega)]

/-! ## Names in a scope -/

/-- Every scope has each name once. -/
def Distinct (stack : ScopeStack) : Prop :=
  ∀ scope ∈ stack.toList, (scope.map Binding.name).Nodup

theorem names_assign? {scope changed : Scope} {item : Item} (h : scope.assign? name item = some changed) :
    changed.map Binding.name = scope.map Binding.name := by
  induction scope generalizing changed with
  | nil => cases h
  | cons first rest ih =>
    rw [Scope.assign?] at h
    split at h
    · cases h
      rfl
    · obtain ⟨rest', hrest, rfl⟩ := Option.map_eq_some_iff.1 h
      rw [List.map_cons, List.map_cons, ih hrest]

theorem names_assignFirst? {scopes changed : List Scope} {item : Item}
    (h : assignFirst? name item scopes = some changed) :
    changed.map (List.map Binding.name) = scopes.map (List.map Binding.name) := by
  induction scopes generalizing changed with
  | nil => cases h
  | cons scope outer ih =>
    rw [assignFirst?] at h
    split at h
    · rename_i scope' hscope
      cases h
      rw [List.map_cons, List.map_cons, names_assign? hscope]
    · obtain ⟨outer', houter, rfl⟩ := Option.map_eq_some_iff.1 h
      rw [List.map_cons, List.map_cons, ih houter]

theorem distinct_iff : stack.Distinct ↔ ∀ names ∈ stack.toList.map (List.map Binding.name), names.Nodup :=
  List.forall_mem_map.symm

theorem Distinct.change (h : stack.Distinct) (change : Change) : (stack.change change).Distinct := by
  cases change with
  | push => exact List.forall_mem_cons.2 ⟨List.nodup_nil, h⟩
  | pop =>
    obtain ⟨innermost, outer⟩ := stack
    cases outer with
    | nil => exact h
    | cons scope outer => exact (List.forall_mem_cons.1 h).2
  | declare binding =>
    rw [ScopeStack.change, ScopeStack.declare]
    split
    · exact h
    · rename_i hnew
      obtain ⟨hinnermost, houter⟩ := List.forall_mem_cons.1 h
      refine List.forall_mem_cons.2 ⟨List.nodup_cons.2 ⟨fun hmem => hnew ?_, hinnermost⟩, houter⟩
      obtain ⟨found, hfound, hname⟩ := List.mem_map.1 hmem
      exact List.find?_isSome.2 ⟨found, hfound, decide_eq_true hname⟩
  | assign name item =>
    rw [ScopeStack.change]
    cases hassign : stack.assign name item with
    | error fault => exact h
    | ok changed =>
      have hnames : changed.toList.map (List.map Binding.name) = stack.toList.map (List.map Binding.name) := by
        rw [assign] at hassign
        split at hassign
        · rename_i innermost outer hfirst
          cases hassign
          exact names_assignFirst? hfirst
        · cases hassign
      rw [orSame, distinct_iff, hnames]
      exact distinct_iff.1 h

theorem Distinct.run (h : stack.Distinct) (changes : List Change) : (stack.run changes).Distinct := by
  induction changes generalizing stack with
  | nil => exact h
  | cons change rest ih => exact ih (h.change change)

/-- A declaration fails where the innermost scope has the name. -/
theorem declare_eq_error_iff {binding : Binding} {kind : ErrorKind} :
    stack.declare binding = .error kind ↔
      kind = .redefinition binding.name ∧ ∃ found ∈ stack.innermost, found.name = binding.name := by
  have hsome : (stack.innermost.find? binding.name).isSome = true ↔
      ∃ found ∈ stack.innermost, found.name = binding.name := by
    rw [Scope.find?, List.find?_isSome]
    simp only [decide_eq_true_eq]
  rw [declare, ← hsome]
  split
  · rename_i hfound
    rw [Except.error.injEq]
    exact ⟨fun heq => ⟨heq.symm, hfound⟩, fun h => h.1.symm⟩
  · rename_i hnew
    exact ⟨fun h => (by cases h), fun h => absurd h.2 hnew⟩

/-! ## Values that are stored in a block -/

/-- The change at an index stores a value under the name while no scope above the height has the name. -/
structure Reaches (start : ScopeStack) (changes : List Change) (height : Nat) (name : String) (index : Nat)
    (item : Item) : Prop where
  stored : changes[index]? = some (.assign name item)
  visible : ¬(start.run (changes.take index)).Hidden height name

/-- The changes leave the binding at a height with the value that reached it last, or with its old one if none did. -/
def LeftWith (start : ScopeStack) (changes : List Change) (height : Nat) (name : String) (old item : Item) : Prop :=
  (∃ index, Reaches start changes height name index item ∧
    ∀ other value, Reaches start changes height name other value → other ≤ index) ∨
  item = old ∧ ∀ index value, ¬Reaches start changes height name index value

section Concat

variable {start : ScopeStack} {changes : List Change} {last : Change} {index : Nat} {item old : Item}

theorem reaches_concat :
    Reaches start (changes ++ [last]) height name index item ↔
      Reaches start changes height name index item ∨
        index = changes.length ∧ last = .assign name item ∧ ¬(start.run changes).Hidden height name := by
  rcases Nat.lt_trichotomy index changes.length with hlt | rfl | hgt
  · have htake : (changes ++ [last]).take index = changes.take index := List.take_append_of_le_length (by omega)
    have hget : (changes ++ [last])[index]? = changes[index]? := List.getElem?_append_left hlt
    constructor
    · rintro ⟨hstored, hvisible⟩
      exact .inl ⟨hget ▸ hstored, htake ▸ hvisible⟩
    · rintro (⟨hstored, hvisible⟩ | ⟨heq, -⟩)
      · exact ⟨hget.symm ▸ hstored, htake.symm ▸ hvisible⟩
      · omega
  · have htake : (changes ++ [last]).take changes.length = changes := List.take_left
    have hget : (changes ++ [last])[changes.length]? = some last := List.getElem?_concat_length
    constructor
    · rintro ⟨hstored, hvisible⟩
      rw [hget, Option.some.injEq] at hstored
      rw [htake] at hvisible
      exact .inr ⟨rfl, hstored, hvisible⟩
    · rintro (⟨hstored, -⟩ | ⟨-, rfl, hvisible⟩)
      · rw [List.getElem?_eq_none (Nat.le_refl _)] at hstored
        cases hstored
      · exact ⟨hget, htake.symm ▸ hvisible⟩
  · have hnone : ∀ l : List Change, l.length ≤ index → l[index]? ≠ some (.assign name item) := by
      intro l hle heq
      rw [List.getElem?_eq_none hle] at heq
      cases heq
    constructor
    · rintro ⟨hstored, -⟩
      exact absurd hstored (hnone _ (by rw [List.length_append, List.length_singleton]; omega))
    · rintro (⟨hstored, -⟩ | ⟨heq, -⟩)
      · exact absurd hstored (hnone _ (by omega))
      · omega

/-- A change that stores no value in the binding does not count. -/
theorem LeftWith.concat (h : LeftWith start changes height name old item)
    (hlast : ∀ value, last = .assign name value → (start.run changes).Hidden height name) :
    LeftWith start (changes ++ [last]) height name old item := by
  have hsame : ∀ index value,
      Reaches start (changes ++ [last]) height name index value ↔ Reaches start changes height name index value := by
    intro index value
    rw [reaches_concat]
    refine ⟨fun hreaches => ?_, .inl⟩
    rcases hreaches with hreaches | ⟨-, hvalue, hvisible⟩
    · exact hreaches
    · exact absurd (hlast value hvalue) hvisible
  unfold LeftWith
  simp only [hsame]
  exact h

/-- A change that stores a value in the binding is the last one that does. -/
theorem leftWith_assign (old : Item) (hvisible : ¬(start.run changes).Hidden height name) :
    LeftWith start (changes ++ [.assign name item]) height name old item := by
  refine .inl ⟨changes.length, reaches_concat.2 (.inr ⟨rfl, rfl, hvisible⟩), fun other value h => ?_⟩
  rcases reaches_concat.1 h with ⟨hstored, -⟩ | ⟨heq, -⟩
  · exact Nat.le_of_lt (List.getElem?_eq_some_iff.1 hstored).1
  · exact Nat.le_of_eq heq

end Concat

/-! ## Scopes below a block -/

/-- The scopes below a block after it has run in a scope of its own. They have the same names as before, each mutable or
not as it was and with the same types. The value of each is the one that was stored in it last. -/
structure LeavesBelow (stack : ScopeStack) (block : List Change) (later : ScopeStack) : Prop where
  absent : ∀ height name, height < stack.depth → stack.bindingUp? height name = none →
    later.bindingUp? height name = none
  present : ∀ height name old, stack.bindingUp? height name = some old →
    ∃ item, later.bindingUp? height name = some { old with item } ∧
      LeftWith stack.push block height name old.item item

theorem Nested.of_concat {block : List Change} {last : Change} (h : Nested (block ++ [last])) : Nested block := by
  intro n
  rcases Nat.le_total n block.length with hle | hge
  · have htake : (block ++ [last]).take n = block.take n := List.take_append_of_le_length hle
    exact htake ▸ h n
  · have htake : (block ++ [last]).take block.length = block := List.take_left
    have hwhole := h block.length
    rw [htake] at hwhole
    rwa [List.take_of_length_le hge]

theorem Nested.countP_le {block : List Change} (h : Nested block) :
    block.countP Change.isPop ≤ block.countP Change.isPush := by
  have hwhole := h block.length
  rwa [List.take_length] at hwhole

namespace LeavesBelow

variable {block : List Change} {last : Change}

theorem nil (stack : ScopeStack) : LeavesBelow stack [] stack.push where
  absent height name _ hnone := by rwa [bindingUp?_push]
  present height name old hold := by
    refine ⟨old.item, by rwa [bindingUp?_push], .inr ⟨rfl, ?_⟩⟩
    rintro index value ⟨hstored, -⟩
    cases hstored

/-- A change other than that of a value leaves the scopes below alone. -/
theorem concat (h : LeavesBelow stack block later) (hlast : ∀ name value, last ≠ .assign name value)
    {changed : ScopeStack}
    (hsame : ∀ height name, height < stack.depth → changed.bindingUp? height name = later.bindingUp? height name) :
    LeavesBelow stack (block ++ [last]) changed where
  absent height name hlt hnone := (hsame height name hlt).trans (h.absent height name hlt hnone)
  present height name old hold := by
    obtain ⟨item, hitem, hleft⟩ := h.present height name old hold
    refine ⟨item, (hsame height name (lt_depth_of_bindingUp? hold)).trans hitem, hleft.concat ?_⟩
    exact fun value hvalue => absurd hvalue (hlast name value)

theorem assign (h : LeavesBelow stack block (stack.push.run block)) (target : String) (value : Item) :
    LeavesBelow stack (block ++ [.assign target value]) ((stack.push.run block).change (.assign target value)) where
  absent height name hlt hnone := by
    have hlater := h.absent height name hlt hnone
    rw [bindingUp?_assign_other value fun _ => .inr hlater]
    exact hlater
  present height name old hold := by
    obtain ⟨item, hitem, hleft⟩ := h.present height name old hold
    by_cases hreached : name = target ∧ ¬(stack.push.run block).Hidden height name
    · obtain ⟨rfl, hvisible⟩ := hreached
      exact ⟨value, bindingUp?_assign hitem hvisible value, leftWith_assign old.item hvisible⟩
    · have hhidden : name = target → (stack.push.run block).Hidden height name :=
        fun heq => by_contra fun hvisible => hreached ⟨heq, hvisible⟩
      refine ⟨item, (bindingUp?_assign_other value fun heq => .inl (hhidden heq)).trans hitem, hleft.concat ?_⟩
      intro other hother
      cases hother
      exact hhidden rfl

end LeavesBelow

/-- A scope is on the stack for every one that has been opened and not dropped, and those below the block are left with
what was stored in them. -/
theorem leavesBelow_run (stack : ScopeStack) {block : List Change} (h : Nested block) :
    (stack.push.run block).depth + block.countP Change.isPop = stack.depth + 1 + block.countP Change.isPush ∧
      LeavesBelow stack block (stack.push.run block) := by
  -- The last change acts on what the changes before it leave.
  induction block using List.reverseRecOn with
  | nil => exact ⟨rfl, LeavesBelow.nil stack⟩
  | append_singleton block last ih =>
    obtain ⟨hdepth, hbelow⟩ := ih h.of_concat
    have hcount := h.of_concat.countP_le
    rw [run_concat, List.countP_append, List.countP_append]
    generalize hcurrent : stack.push.run block = current at *
    cases last with
    | push =>
      refine ⟨?_, hbelow.concat (by rintro _ _ ⟨⟩) fun height name _ => ?_⟩
      · change current.depth + 1 + (block.countP Change.isPop + 0) = stack.depth + 1 + (block.countP Change.isPush + 1)
        omega
      · exact congrFun₂ (bindingUp?_push current) height name
    | pop =>
      have hpops := h.countP_le
      rw [List.countP_append, List.countP_append] at hpops
      change block.countP Change.isPop + 1 ≤ block.countP Change.isPush + 0 at hpops
      -- A scope that the block has opened is there to be dropped.
      have hopen : 1 < current.depth := by omega
      obtain ⟨hpop, hsame⟩ := change_pop hopen
      refine ⟨?_, hbelow.concat (by rintro _ _ ⟨⟩) fun height name hlt => hsame height name (by omega)⟩
      change _ + (block.countP Change.isPop + 1) = stack.depth + 1 + (block.countP Change.isPush + 0)
      omega
    | declare binding =>
      obtain ⟨hdeclare, hsame⟩ := change_declare current binding
      refine ⟨?_, hbelow.concat (by rintro _ _ ⟨⟩) fun height name hlt => hsame height name (by omega)⟩
      rw [hdeclare]
      exact hdepth
    | assign target value =>
      subst hcurrent
      refine ⟨?_, hbelow.assign target value⟩
      rw [depth_change_assign]
      exact hdepth

/-- A block between a push and its pop. -/
theorem leavesBelow_block (stack : ScopeStack) {block : List Change} (h : Matched block) :
    (stack.run (.push :: (block ++ [.pop]))).depth = stack.depth ∧
      LeavesBelow stack block (stack.run (.push :: (block ++ [.pop]))) := by
  have hrun : stack.run (.push :: (block ++ [.pop])) = (stack.push.run block).change .pop :=
    run_concat stack.push block .pop
  obtain ⟨hdepth, hbelow⟩ := leavesBelow_run stack h.nested
  have hclosed := h.closed
  have hopen : 1 < (stack.push.run block).depth := by
    have hstack : 1 ≤ stack.depth := Nat.le_add_left 1 _
    omega
  obtain ⟨hpop, hsame⟩ := change_pop hopen
  have hlater : ((stack.push.run block).change .pop).depth = stack.depth := by omega
  rw [hrun]
  refine ⟨hlater, fun height name hlt hnone => ?_, fun height name old hold => ?_⟩
  · rw [hsame height name (by omega)]
    exact hbelow.absent height name hlt hnone
  · rw [hsame height name (by rw [hlater]; exact lt_depth_of_bindingUp? hold)]
    exact hbelow.present height name old hold

end ScopeStack

open ScopeStack in
/-- After every run from a new stack the global scope is there, and it is the one that cannot be dropped. Every scope
has each name once. A declaration fails where the innermost scope has the name, a name stands for its binding in the
highest scope, and a block between a push and its pop leaves the scopes below it with what was stored in them. -/
theorem scopes_over_runs (changes : List Change) :
    let stack := ScopeStack.empty.run changes
    1 ≤ stack.depth ∧
      (stack.pop = .error .globalScopeDropped ↔ stack.depth = 1) ∧
      (∀ scope ∈ stack.toList, (scope.map Binding.name).Nodup ∧
        ∀ name binding, scope.find? name = some binding → binding.name = name) ∧
      (∀ binding kind, stack.declare binding = .error kind ↔
        kind = .redefinition binding.name ∧ ∃ found ∈ stack.innermost, found.name = binding.name) ∧
      (∀ name binding, stack.lookup? name = some binding ↔
        ∃ height, stack.bindingUp? height name = some binding ∧ ¬stack.Hidden height name) ∧
      ∀ block, Matched block →
        (stack.run (.push :: (block ++ [.pop]))).depth = stack.depth ∧
          LeavesBelow stack block (stack.run (.push :: (block ++ [.pop]))) := by
  intro stack
  have hempty : ScopeStack.empty.Distinct := List.forall_mem_singleton.2 List.nodup_nil
  have hdistinct : stack.Distinct := hempty.run changes
  refine ⟨Nat.le_add_left 1 _, ?_, fun scope hscope => ⟨hdistinct scope hscope, ?_⟩,
    fun _ _ => declare_eq_error_iff, fun _ _ => lookup?_eq_some_iff_height, fun _ => leavesBelow_block stack⟩
  · exact pop_eq_error_iff
  · intro name binding hfind
    have hname := List.find?_some hfind
    exact of_decide_eq_true hname

/-- What is stored before a name is hidden lasts, and what is stored afterwards is dropped with the scope. -/
example :
    let declared (n : Int64) : ScopeStack.Change := .declare ⟨"x", true, .any, .int n⟩
    let stored (n : Int64) : ScopeStack.Change := .assign "x" (.int n)
    ((ScopeStack.empty.run [declared 1, .push, stored 2, declared 3, stored 4, .pop]).lookup? "x").map Binding.item =
      some (.int 2) :=
  rfl

end GradualScript
