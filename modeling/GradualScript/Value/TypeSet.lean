import GradualScript.Value.TypeTag

/-!
# Sets of types

* `TypeSet` : the types a binding or the result of a function may have;
* `TypeSet.add`, `TypeSet.declare` : the first type that is added closes the set, and `Any` adds nothing;
* `TypeSet.contains`, `TypeSet.accepts`, `TypeSet.name`.
-/

set_option autoImplicit false

namespace GradualScript

/-- A set of types: all types until one is added, then the added ones, in order and each of them once. -/
inductive TypeSet where
  | any
  | closed (tags : List TypeTag)
deriving DecidableEq

namespace TypeSet

/-- Puts a type in its place among others in order, unless it is there. -/
def insert (tag : TypeTag) : List TypeTag → List TypeTag
  | [] => [tag]
  | other :: rest =>
    if tag = other then other :: rest
    else if tag.before other then tag :: other :: rest
    else other :: insert tag rest

theorem mem_insert {tag other : TypeTag} {tags : List TypeTag} :
    other ∈ insert tag tags ↔ other = tag ∨ other ∈ tags := by
  induction tags with
  | nil => simp [insert]
  | cons first rest ih =>
    unfold insert
    split
    · rename_i h
      simp [h]
    · split
      · simp
      · rw [List.mem_cons, List.mem_cons, ih]
        grind

def isAny : TypeSet → Bool
  | any => true
  | closed _ => false

/-- Adds a type. -/
def add (tag : TypeTag) : TypeSet → TypeSet
  | any => closed [tag]
  | closed tags => closed (insert tag tags)

/-- Adds a declared type; `Any` changes nothing. -/
def declare (declared : DeclaredType) (types : TypeSet) : TypeSet :=
  match declared with
  | .any => types
  | .exact tag => types.add tag

/-- The set of one declared type. -/
def ofDeclared (declared : DeclaredType) : TypeSet :=
  any.declare declared

/-- The type was added. -/
def contains : TypeSet → TypeTag → Bool
  | any, _ => false
  | closed tags, tag => tags.contains tag

/-- A value of this type may be taken. -/
def accepts (types : TypeSet) (tag : TypeTag) : Bool :=
  types.isAny || types.contains tag

/-- The types of the set in order. -/
def name : TypeSet → String
  | any => "Any"
  | closed tags => String.intercalate " | " (tags.map TypeTag.name)

end TypeSet

end GradualScript
