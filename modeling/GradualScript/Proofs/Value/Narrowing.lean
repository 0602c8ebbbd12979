import Mathlib.Data.List.Sort
import Mathlib.Data.Prod.Lex
import Mathlib.Data.String.Basic
import GradualScript.Value.TypeSet

/-!
# Types that are added to a set

A set of types is open until a type is added. From then on it holds the types that were added and no others, and nothing
of the way in which they were added is left in it.

* `TypeTag.rankedName` : a type by its rank and its name, which is the order of types (`before_iff`);
* `TypeTag.Ordered` : types in this order, which are told by their members (`Ordered.ext`);
* `TypeTag.Listed` : types that are no classes in the order of `TypeTag.basic`, then classes by name (`Ordered.listed`);
* `TypeSet.Addition`, `TypeSet.run` : additions to a set one after another; `TypeSet.Adds` : the types they add;
* `TypeSet.SetOf p` : the set of the types with the property `p`, of which there is one (`SetOf.unique`); `SetOf.extend`
  and `SetOf.run` say which set is there after an addition and after a run;
* `types_over_runs` : what holds after every run from an open set.
-/

set_option autoImplicit false

namespace GradualScript

/-! ## The order of types -/

namespace TypeTag

variable {s t u : TypeTag} {tags : List TypeTag}

/-- A type by its rank and its name. -/
def rankedName (tag : TypeTag) : Nat ×ₗ String :=
  toLex (tag.rank, tag.name)

theorem rankedName_injective : Function.Injective rankedName := by
  intro s t h
  have hboth : (s.rank, s.name) = (t.rank, t.name) := toLex.injective h
  obtain ⟨hrank, hname⟩ := Prod.mk.inj hboth
  cases s <;> cases t <;> simp_all [rank, name]

/-- Two types that are no classes differ in their rank, and classes only in their name. -/
theorem before_iff : s.before t = true ↔ s.rankedName < t.rankedName := by
  rw [rankedName, rankedName, Prod.Lex.toLex_lt_toLex]
  cases s <;> cases t <;> simp [before, rank, name]

theorem before_trans (hst : s.before t = true) (htu : t.before u = true) : s.before u = true :=
  before_iff.2 ((before_iff.1 hst).trans (before_iff.1 htu))

theorem before_of_not_before (hne : s ≠ t) (h : ¬s.before t = true) : t.before s = true := by
  rw [before_iff, not_lt] at h
  exact before_iff.2 (h.lt_of_ne (rankedName_injective.ne hne.symm))

/-- Types in order, each of them once. -/
def Ordered (tags : List TypeTag) : Prop :=
  tags.Pairwise fun s t => s.before t = true

theorem Ordered.ext {others : List TypeTag} (h : Ordered tags) (h' : Ordered others)
    (hsame : ∀ tag, tag ∈ tags ↔ tag ∈ others) : tags = others := by
  have hirrefl : Std.Irrefl fun s t : TypeTag => s.before t = true :=
    ⟨fun _ hbefore => lt_irrefl _ (before_iff.1 hbefore)⟩
  have hantisymm : Std.Antisymm fun s t : TypeTag => s.before t = true :=
    ⟨fun _ _ hst hts => absurd (before_iff.1 hst) (before_iff.1 hts).asymm⟩
  exact List.Pairwise.eq_of_mem_iff h h' hsame

/-- The types that are no classes, in order. -/
def basic : List TypeTag :=
  [int, float, bool, string, char, function, unit]

/-- Types listed once each: some that are no classes in their order, then classes by name. -/
def Listed (tags : List TypeTag) : Prop :=
  ∃ (basics : List TypeTag) (classes : List String),
    tags = basics ++ classes.map object ∧ basics.Sublist basic ∧ classes.Pairwise (· < ·)

def className? : TypeTag → Option String
  | object className => some className
  | _ => none

theorem className?_eq_some {className : String} : t.className? = some className ↔ t = object className := by
  cases t <;> simp [className?]

theorem mem_basic : t ∈ basic ↔ t.className? = none := by
  cases t <;> simp [basic, className?]

theorem before_object (className : String) : ∀ tag ∈ basic, tag.before (object className) = true := by
  simp [basic, before, rank]

theorem Ordered.listed (h : Ordered tags) : Listed tags := by
  have hclasses : (tags.filterMap className?).Pairwise (· < ·) := by
    rw [List.pairwise_filterMap]
    refine List.Pairwise.imp ?_ h
    intro s t hbefore c hc d hd
    rw [className?_eq_some] at hc hd
    subst hc hd
    exact of_decide_eq_true hbefore
  refine ⟨basic.filter (· ∈ tags), tags.filterMap className?, ?_, List.filter_sublist, hclasses⟩
  refine h.ext (List.pairwise_append.2 ⟨?_, ?_, ?_⟩) fun tag => ?_
  · exact List.Pairwise.filter _ (by decide)
  · exact List.pairwise_map.2 (hclasses.imp fun hlt => decide_eq_true hlt)
  · intro tag htag other hother
    obtain ⟨className, -, rfl⟩ := List.mem_map.1 hother
    exact before_object className tag (List.mem_filter.1 htag).1
  · simp only [List.mem_append, List.mem_filter, List.mem_map, List.mem_filterMap, className?_eq_some, mem_basic]
    cases tag <;> simp [className?]

end TypeTag

/-! ## Runs of additions -/

namespace TypeSet

/-- What can be done to a set of types. -/
inductive Addition where
  | add (tag : TypeTag)
  | declare (declared : DeclaredType)

/-- The set after an addition. -/
def extend (types : TypeSet) : Addition → TypeSet
  | .add tag => types.add tag
  | .declare declared => types.declare declared

/-- The set after additions one after another. -/
def run (types : TypeSet) (additions : List Addition) : TypeSet :=
  additions.foldl extend types

/-- The type is one of those that are added. -/
def Adds (additions : List Addition) (tag : TypeTag) : Prop :=
  .add tag ∈ additions ∨ .declare (.exact tag) ∈ additions

/-- The set of the types with a property: the open set if no type has it, else these types in order. -/
inductive SetOf (p : TypeTag → Prop) : TypeSet → Prop where
  | any : (∀ tag, ¬p tag) → SetOf p .any
  | closed {tags : List TypeTag} : tags ≠ [] → TypeTag.Ordered tags → (∀ tag, tag ∈ tags ↔ p tag) →
    SetOf p (.closed tags)

variable {types others : TypeSet} {tags : List TypeTag} {p q : TypeTag → Prop}

theorem insert_ne_nil (tag : TypeTag) (tags : List TypeTag) : insert tag tags ≠ [] :=
  List.ne_nil_of_mem (mem_insert.2 (.inl rfl))

theorem ordered_insert (tag : TypeTag) (h : TypeTag.Ordered tags) : TypeTag.Ordered (insert tag tags) := by
  induction tags with
  | nil => exact List.pairwise_singleton _ _
  | cons first rest ih =>
    obtain ⟨hfirst, hrest⟩ := List.pairwise_cons.1 h
    unfold insert
    split
    · exact h
    rename_i hne
    split
    · rename_i hbefore
      refine List.pairwise_cons.2 ⟨fun other hother => ?_, h⟩
      rcases List.mem_cons.1 hother with rfl | hother
      · exact hbefore
      · exact TypeTag.before_trans hbefore (hfirst other hother)
    · rename_i hafter
      refine List.pairwise_cons.2 ⟨fun other hother => ?_, ih hrest⟩
      rcases mem_insert.1 hother with rfl | hother
      · exact TypeTag.before_of_not_before hne hafter
      · exact hfirst other hother

namespace SetOf

theorem congr (h : SetOf p types) (hpq : ∀ tag, p tag ↔ q tag) : SetOf q types := by
  obtain rfl : p = q := funext fun tag => propext (hpq tag)
  exact h

theorem isAny_iff (h : SetOf p types) : types.isAny = true ↔ ∀ tag, ¬p tag := by
  cases h with
  | any hnone => exact ⟨fun _ => hnone, fun _ => rfl⟩
  | closed hne _ hmem =>
    obtain ⟨tag, htag⟩ := List.exists_mem_of_ne_nil _ hne
    exact ⟨nofun, fun hnone => absurd ((hmem tag).1 htag) (hnone tag)⟩

/-- A property has one set. -/
theorem unique (h : SetOf p types) (h' : SetOf p others) : types = others := by
  have hsame : types.isAny = true ↔ others.isAny = true := h.isAny_iff.trans h'.isAny_iff.symm
  cases h with
  | any =>
    cases h' with
    | any => rfl
    | closed => exact nomatch hsame.1 rfl
  | closed _ hordered hmem =>
    cases h' with
    | any => exact nomatch hsame.2 rfl
    | closed _ hordered' hmem' =>
      rw [hordered.ext hordered' fun tag => (hmem tag).trans (hmem' tag).symm]

theorem contains_iff (h : SetOf p types) (tag : TypeTag) : types.contains tag = true ↔ p tag := by
  cases h with
  | any hnone => exact ⟨nofun, fun htag => absurd htag (hnone tag)⟩
  | closed _ _ hmem => exact List.contains_iff_mem.trans (hmem tag)

theorem accepts_iff (h : SetOf p types) (tag : TypeTag) :
    types.accepts tag = true ↔ (∀ other, ¬p other) ∨ p tag := by
  rw [accepts, Bool.or_eq_true, h.isAny_iff, h.contains_iff]

theorem ne_closed_nil (h : SetOf p types) : types ≠ .closed [] := by
  rintro rfl
  cases h with
  | closed hne => exact hne rfl

/-- The name of a set tells its types in order. -/
theorem name_eq (h : SetOf p types) :
    types.isAny = true ∧ types.name = "Any" ∨
      ∃ tags, types = .closed tags ∧ TypeTag.Listed tags ∧ (∀ tag, tag ∈ tags ↔ p tag) ∧
        types.name = String.intercalate " | " (tags.map TypeTag.name) := by
  cases h with
  | any => exact .inl ⟨rfl, rfl⟩
  | closed _ hordered hmem => exact .inr ⟨_, rfl, hordered.listed, hmem, rfl⟩

/-- A type that is added closes an open set, and takes its place in one that is closed. -/
theorem add (h : SetOf p types) (tag : TypeTag) : SetOf (fun other => p other ∨ other = tag) (types.add tag) := by
  cases h with
  | any hnone =>
    refine .closed (List.cons_ne_nil _ _) (List.pairwise_singleton _ _) fun other => ?_
    rw [List.mem_singleton]
    exact (or_iff_right (hnone other)).symm
  | closed _ hordered hmem =>
    refine .closed (insert_ne_nil _ _) (ordered_insert tag hordered) fun other => ?_
    rw [mem_insert, hmem, or_comm]

end SetOf

/-! ## Sets after a run -/

theorem adds_cons {first : Addition} {rest : List Addition} {tag : TypeTag} :
    Adds (first :: rest) tag ↔ Adds [first] tag ∨ Adds rest tag := by
  simp only [Adds, List.mem_cons, List.not_mem_nil, or_false]
  exact or_or_or_comm

theorem SetOf.extend (h : SetOf p types) (addition : Addition) :
    SetOf (fun tag => p tag ∨ Adds [addition] tag) (types.extend addition) := by
  match addition with
  | .add added => exact (h.add added).congr fun tag => by simp [Adds]
  | .declare .any => exact h.congr fun tag => by simp [Adds]
  | .declare (.exact added) => exact (h.add added).congr fun tag => by simp [Adds]

theorem SetOf.run (h : SetOf p types) (additions : List Addition) :
    SetOf (fun tag => p tag ∨ Adds additions tag) (types.run additions) := by
  induction additions generalizing types p with
  | nil => exact h.congr fun tag => by simp [Adds]
  | cons first rest ih =>
    refine (ih (h.extend first)).congr fun tag => ?_
    rw [or_assoc, ← adds_cons]

/-- From an open set, a run gives the set of the types that it adds. -/
theorem setOf_run (additions : List Addition) : SetOf (Adds additions) (any.run additions) := by
  have hnone : SetOf (fun _ => False) any := .any fun _ => not_false
  exact (hnone.run additions).congr fun tag => by rw [false_or]

end TypeSet

open TypeSet in
/-- After every run from an open set, the set is open if no type was added. A closed set stays closed, and it is never
empty. It contains the types that were added, and takes these or, if there are none, all. Runs that add the same types
give the same set with the same name, which tells the types once each, classes last and by name. -/
theorem types_over_runs (additions : List Addition) :
    let types := TypeSet.any.run additions
    (types.isAny = true ↔ ∀ tag, ¬Adds additions tag) ∧
      (types.isAny = false → ∀ more, (types.run more).isAny = false ∧ types.run more ≠ .closed []) ∧
      (∀ tag, types.contains tag = true ↔ Adds additions tag) ∧
      (∀ tag, types.accepts tag = true ↔ (∀ other, ¬Adds additions other) ∨ Adds additions tag) ∧
      (∀ others, (∀ tag, Adds others tag ↔ Adds additions tag) →
        TypeSet.any.run others = types ∧ (TypeSet.any.run others).name = types.name) ∧
      (types.isAny = true ∧ types.name = "Any" ∨
        ∃ tags, types = .closed tags ∧ TypeTag.Listed tags ∧ (∀ tag, tag ∈ tags ↔ Adds additions tag) ∧
          types.name = String.intercalate " | " (tags.map TypeTag.name)) := by
  intro types
  have htypes : SetOf (Adds additions) types := setOf_run additions
  refine ⟨htypes.isAny_iff, fun hclosed more => ?_, htypes.contains_iff, htypes.accepts_iff, fun others hsame => ?_,
    htypes.name_eq⟩
  · have hmore := htypes.run more
    refine ⟨?_, hmore.ne_closed_nil⟩
    -- The type that closed the set is still in it.
    rw [← Bool.not_eq_true, htypes.isAny_iff] at hclosed
    rw [← Bool.not_eq_true, hmore.isAny_iff]
    exact fun hnone => hclosed fun tag htag => hnone tag (.inl htag)
  · have hothers : SetOf (Adds additions) (TypeSet.any.run others) := (setOf_run others).congr hsame
    have heq : TypeSet.any.run others = types := hothers.unique htypes
    exact ⟨heq, congrArg TypeSet.name heq⟩

open TypeSet in
theorem types_over_runs_shuffled :
    let additions : List Addition :=
      [.add (.object "Point"), .declare .any, .add .string, .declare (.exact (.object "Box")), .add .int]
    let others : List Addition :=
      [.declare (.exact .int), .add (.object "Box"), .add .int, .add (.object "Point"), .declare (.exact .string),
        .declare .any]
    (∀ tag, Adds others tag ↔ Adds additions tag) ∧
      TypeSet.any.run others = TypeSet.any.run additions ∧
      (TypeSet.any.run others).name = (TypeSet.any.run additions).name ∧
      (TypeSet.any.run additions).name = "Int | String | Box | Point" := by
  intro additions others
  have hsame : ∀ tag, Adds others tag ↔ Adds additions tag := by
    intro tag
    simp only [Adds, additions, others]
    grind
  obtain ⟨-, -, -, -, hequal, -⟩ := types_over_runs additions
  obtain ⟨hset, hname⟩ := hequal others hsame
  exact ⟨hsame, hset, hname, by decide⟩

end GradualScript
