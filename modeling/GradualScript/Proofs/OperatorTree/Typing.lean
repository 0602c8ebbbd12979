import GradualScript.Proofs.OperatorTree.Postfix

/-!
# Types of expressions

The types of its values decide which type an expression has, if it has one.

* `Operator.resultType?`, `Operator.unaryType?` : the type that an operator gives to operands of some types;
* `Operator.Mishap`, `Operator.UnaryMishap` : how an operator fails on operands that have a result type;
* `resultType?_of_apply`, `mishap_of_apply` : one operator gives a value of its type, or fails in one of these ways;
* `OperatorTree.typeOf?`, `OperatorTree.Stops` : the same for a tree;
* `calculate_typed` : an expression that has a value has its type, and one that has a type fails only by a mishap.
-/

set_option autoImplicit false

namespace GradualScript

namespace Operator

/-- The type of an operator on two numbers: a truth value for comparisons, and `tag` for arithmetic. -/
def numberType? (op : Operator) (tag : TypeTag) : Option TypeTag :=
  if op ∈ comparisons then some .bool else if op ∈ arithmetic then some tag else none

/-- The type of a binary operator on operands of two types. -/
def resultType? (op : Operator) : TypeTag → TypeTag → Option TypeTag
  | .int, .int => op.numberType? .int
  | .int, .float | .float, .int | .float, .float => op.numberType? .float
  | .bool, .bool => if op ∈ [and, or, xor, equal, notEqual] then some .bool else none
  | .string, .string => if op = add then some .string else if op ∈ comparisons then some .bool else none
  | .char, .char => if op = add ∨ op = sub then some .char else if op ∈ comparisons then some .bool else none
  | .string, .int | .int, .string => if op = mul then some .string else none
  | .char, .string | .string, .char => if op = add then some .string else none
  | _, _ => none

/-- The type of a unary operator on an operand of a type. -/
def unaryType? (op : Operator) : TypeTag → Option TypeTag
  | .int => if op.isUnary then some .int else none
  | .float => if op.isUnary then some .float else none
  | .bool => if op = not then some .bool else none
  | _ => none

/-- The value is zero, as it stands or as the float that it is widened to. -/
def IsZero : Item → Prop
  | .int x => x = 0 ∨ (x.toFloat == 0) = true
  | .float x => (x == 0) = true
  | _ => False

/-- One of the operands is the text and the other one the number of its repetitions. -/
def Repeats (text : String) (count : Int64) (left right : Item) : Prop :=
  left = .string text ∧ right = .int count ∨ left = .int count ∧ right = .string text

/-- How a binary operator may fail on operands that have a result type. -/
inductive Mishap : (op : Operator) → (left right : Item) → ErrorKind → Prop where
  /-- A number is divided by zero. -/
  | zeroDivision {op : Operator} {left right : Item} : op = div ∨ op = mod → left.isNumber = true → IsZero right →
      Mishap op left right .zeroDivision
  /-- Arithmetic on two integers has no result in 64 bits. -/
  | inexact {op : Operator} {x y : Int64} (message : String) : op ∈ arithmetic →
      Mishap op (.int x) (.int y) (.runtime message)
  /-- A string is repeated so often that it gets too long. -/
  | tooLong {text : String} {count : Int64} {left right : Item} (message : String) : Repeats text count left right →
      maxRepetition < text.utf8ByteSize * count.toInt.toNat → Mishap mul left right (.runtime message)
  /-- A string is repeated a negative number of times. -/
  | negative {text : String} {count : Int64} {left right : Item} (operand : String) : Repeats text count left right →
      count.toInt < 0 → Mishap mul left right (.unfitOperands mul.symbol operand)
  /-- The sum of two characters is no character. -/
  | noSum {x y : Char} : ¬(x.toNat + y.toNat).isValidChar →
      Mishap add (.char x) (.char y) (.undefinedOperation add.symbol TypeTag.char.name)
  /-- The difference of two characters is no character. -/
  | noDifference {x y : Char} : x.toNat < y.toNat ∨ ¬(x.toNat - y.toNat).isValidChar →
      Mishap sub (.char x) (.char y) (.undefinedOperation sub.symbol TypeTag.char.name)

/-- How a unary operator may fail on an operand that has a result type. -/
inductive UnaryMishap : (op : Operator) → (operand : Item) → ErrorKind → Prop where
  /-- The least integer is negated. -/
  | inexact {x : Int64} (message : String) : ¬Integer.InRange (-x.toInt) →
      UnaryMishap minus (.int x) (.runtime message)

/-! ## A value has the type -/

variable {op : Operator} {item : Item} {tag : TypeTag} {kind : ErrorKind}

theorem tag_of_orOverflow {operation : String} {result : Option Int64} (h : orOverflow operation result = .ok item) :
    item.tag = .int := by
  unfold orOverflow at h
  split at h
  · cases h
    rfl
  · cases h

theorem numberType?_of_comparison (h : op.isComparison = true) (tag : TypeTag) : op.numberType? tag = some .bool := by
  rw [numberType?, if_pos (List.contains_iff_mem.1 h)]

theorem type_of_applyInt {x y : Int64} (h : op.applyInt x y = .ok item) : op.numberType? .int = some item.tag := by
  unfold applyInt at h
  split at h
  · cases h
  split at h
  · rename_i hcompare
    cases h
    exact numberType?_of_comparison hcompare _
  split at h
  · rw [tag_of_orOverflow h]; rfl
  · rw [tag_of_orOverflow h]; rfl
  · rw [tag_of_orOverflow h]; rfl
  · rw [tag_of_orOverflow h]; rfl
  · rw [tag_of_orOverflow h]; rfl
  · split at h
    · rw [tag_of_orOverflow h]; rfl
    · cases h
  · cases h

theorem type_of_applyFloat {x y : Float} (h : op.applyFloat x y = .ok item) :
    op.numberType? .float = some item.tag := by
  unfold applyFloat at h
  split at h
  · cases h
  split at h
  · rename_i hcompare
    cases h
    exact numberType?_of_comparison hcompare _
  split at h <;> cases h <;> rfl

/-- The table has no operation that orders truth values; without it there would be one. -/
theorem type_of_applyBool {x y : Bool} (hop : op ∈ TypeTag.bool.operations) (h : op.applyBool x y = .ok item) :
    op.resultType? .bool .bool = some item.tag := by
  have htype : op.resultType? .bool .bool = some .bool := if_pos hop
  rw [htype]
  unfold applyBool at h
  split at h
  · cases h
    rfl
  split at h <;> cases h <;> rfl

theorem type_of_applyString {x y : String} (h : op.applyString x y = .ok item) :
    op.resultType? .string .string = some item.tag := by
  unfold applyString at h
  split at h
  · rename_i hcompare
    cases h
    have hadd : op ≠ add := by
      rintro rfl
      cases hcompare
    rw [resultType?, if_neg hadd, if_pos (List.contains_iff_mem.1 hcompare)]
    rfl
  split at h <;> cases h
  rfl

theorem type_of_applyChar {x y : Char} (h : op.applyChar x y = .ok item) :
    op.resultType? .char .char = some item.tag := by
  unfold applyChar at h
  split at h
  · rename_i hcompare
    cases h
    have hop : ¬(op = add ∨ op = sub) := by
      rintro (rfl | rfl) <;> cases hcompare
    rw [resultType?, if_neg hop, if_pos (List.contains_iff_mem.1 hcompare)]
    rfl
  dsimp only at h
  split at h
  · rename_i hcode
    cases h
    have hop : op = add ∨ op = sub := by
      split at hcode
      · exact .inl rfl
      · exact .inr rfl
      · cases hcode
    rw [resultType?, if_pos hop]
    rfl
  · cases h

theorem type_of_applyCategory {left right : Item} (h : op.applyCategory left right = .ok item) :
    op.resultType? left.tag right.tag = some item.tag := by
  unfold applyCategory at h
  split at h
  · cases h
  rename_i hoperations
  have hop : op ∈ (category left.tag right.tag).operations := by simpa using hoperations
  split at h
  · exact type_of_applyInt h
  · exact type_of_applyFloat h
  · exact type_of_applyFloat h
  · exact type_of_applyFloat h
  · exact type_of_applyBool hop h
  · exact type_of_applyString h
  · exact type_of_applyChar h
  · cases h

theorem tag_of_repeated {text : String} {count : Int64} (h : repeated text count = .ok item) : item.tag = .string := by
  unfold repeated at h
  split at h
  · cases h
  split at h
  · cases h
    rfl
  · cases h

/-- What a binary operator gives is of the type that the operands' types tell. -/
theorem resultType?_of_apply {left right : Item} (h : op.apply left right = .ok item) :
    op.resultType? left.tag right.tag = some item.tag := by
  unfold apply at h
  split at h
  · cases h
  split at h
  · rw [tag_of_repeated h]; rfl
  · rw [tag_of_repeated h]; rfl
  · cases h
    rfl
  · cases h
    rfl
  · exact type_of_applyCategory h

/-- What a unary operator gives is of the type that the operand's type tells. -/
theorem unaryType?_of_applyUnary {operand : Item} (h : op.applyUnary operand = .ok item) :
    op.unaryType? operand.tag = some item.tag := by
  unfold applyUnary at h
  split at h
  · split at h
    · cases h
      rfl
    · rw [tag_of_orOverflow h]; rfl
    · cases h
      rfl
    · cases h
  · split at h <;> cases h <;> rfl
  · split at h <;> cases h
    rfl
  · cases h

/-! ## A type leaves few ways to fail -/

theorem runtime_of_orOverflow {operation : String} {result : Option Int64}
    (h : orOverflow operation result = .error kind) :
    kind = .runtime ("integer overflow in " ++ operation) ∧ result = none := by
  unfold orOverflow at h
  split at h
  · cases h
  · cases h
    exact ⟨rfl, rfl⟩

/-- An operator on numbers that has a type is a comparison or arithmetic. -/
theorem mem_of_numberType? (h : op.numberType? tag ≠ none) : op.isComparison = true ∨ op ∈ arithmetic := by
  unfold numberType? at h
  split at h
  · exact .inl (List.contains_iff_mem.2 ‹_›)
  split at h
  · exact .inr ‹_›
  · exact absurd rfl h

theorem mishap_of_applyInt {x y : Int64} (htype : op.numberType? .int ≠ none) (h : op.applyInt x y = .error kind) :
    op.Mishap (.int x) (.int y) kind := by
  unfold applyInt at h
  split at h
  · rename_i hzero
    cases h
    simp only [Bool.and_eq_true, Bool.or_eq_true, decide_eq_true_eq] at hzero
    exact .zeroDivision hzero.1 rfl (.inl hzero.2)
  split at h
  · cases h
  rename_i hcompare
  have harith : op ∈ arithmetic := (mem_of_numberType? htype).resolve_left hcompare
  split at h
  · exact (runtime_of_orOverflow h).1 ▸ .inexact _ harith
  · exact (runtime_of_orOverflow h).1 ▸ .inexact _ harith
  · exact (runtime_of_orOverflow h).1 ▸ .inexact _ harith
  · exact (runtime_of_orOverflow h).1 ▸ .inexact _ harith
  · exact (runtime_of_orOverflow h).1 ▸ .inexact _ harith
  · split at h
    · exact (runtime_of_orOverflow h).1 ▸ .inexact _ harith
    · cases h
      exact .inexact _ harith
  · simp_all [arithmetic]

/-- Arithmetic on floats fails only where it divides by zero. -/
theorem zero_of_applyFloat {x y : Float} (htype : op.numberType? .float ≠ none)
    (h : op.applyFloat x y = .error kind) : kind = .zeroDivision ∧ (op = div ∨ op = mod) ∧ (y == 0) = true := by
  unfold applyFloat at h
  split at h
  · rename_i hzero
    cases h
    simp only [Bool.and_eq_true, Bool.or_eq_true, decide_eq_true_eq] at hzero
    exact ⟨rfl, hzero⟩
  split at h
  · cases h
  rename_i hcompare
  have harith : op ∈ arithmetic := (mem_of_numberType? htype).resolve_left hcompare
  split at h
  · cases h
  · cases h
  · cases h
  · cases h
  · cases h
  · cases h
  · simp_all [arithmetic]

theorem mishap_of_applyFloat {left right : Item} {x y : Float} (hleft : left.isNumber = true)
    (hright : (y == 0) = true → IsZero right) (htype : op.numberType? .float ≠ none)
    (h : op.applyFloat x y = .error kind) : op.Mishap left right kind := by
  obtain ⟨rfl, hop, hzero⟩ := zero_of_applyFloat htype h
  exact .zeroDivision hop hleft (hright hzero)

theorem applyBool_isOk (htype : op.resultType? .bool .bool ≠ none) (x y : Bool) :
    ∃ item, op.applyBool x y = .ok item := by
  cases op <;> first | exact ⟨_, rfl⟩ | exact absurd rfl htype

theorem applyString_isOk (htype : op.resultType? .string .string ≠ none) (x y : String) :
    ∃ item, op.applyString x y = .ok item := by
  cases op <;> first | exact ⟨_, rfl⟩ | exact absurd rfl htype

theorem charOf?_eq_none {code : Nat} (h : charOf? code = none) : ¬code.isValidChar := by
  unfold charOf? at h
  split at h
  · cases h
  · assumption

theorem mishap_of_applyChar {x y : Char} (htype : op.resultType? .char .char ≠ none)
    (h : op.applyChar x y = .error kind) : op.Mishap (.char x) (.char y) kind := by
  unfold applyChar at h
  split at h
  · cases h
  rename_i hcompare
  dsimp only at h
  split at h
  · cases h
  rename_i hcode
  cases h
  split at hcode
  · exact .noSum (charOf?_eq_none hcode)
  · split at hcode
    · exact .noDifference (.inr (charOf?_eq_none hcode))
    · exact .noDifference (.inl (by omega))
  · -- neither a comparison nor a sum nor a difference
    refine absurd ?_ htype
    rw [resultType?, if_neg (by rintro (rfl | rfl) <;> simp_all),
      if_neg (fun hmem => hcompare (List.contains_iff_mem.2 hmem))]

theorem mishap_of_repeated {text : String} {count : Int64} {left right : Item}
    (hrepeats : Repeats text count left right)
    (h : repeated text count = .error kind) : mul.Mishap left right kind := by
  unfold repeated at h
  split at h
  · cases h
    exact .negative _ hrepeats ‹_›
  split at h
  · cases h
  · cases h
    exact .tooLong _ hrepeats (by omega)

/-- Operands that have a result type may meet at the operator. -/
theorem admits_of_resultType? {left right : TypeTag} (h : op.resultType? left right ≠ none) :
    op.admits left right = true := by
  unfold resultType? at h
  split at h <;> simp_all [admits, TypeTag.isNumber]

/-- The operator makes a string out of values of two types. -/
def Joins (op : Operator) (left right : TypeTag) : Prop :=
  op = mul ∧ (left = .string ∧ right = .int ∨ left = .int ∧ right = .string) ∨
    op = add ∧ (left = .char ∧ right = .string ∨ left = .string ∧ right = .char)

theorem mem_operations_of_numberType? (h : op.numberType? tag ≠ none) : op ∈ arithmetic ++ comparisons := by
  rcases mem_of_numberType? h with hcompare | harith
  · exact List.mem_append_right _ (List.contains_iff_mem.1 hcompare)
  · exact List.mem_append_left _ harith

/-- An operator that has a type and joins nothing is one of the operators of the operands' category. -/
theorem mem_operations_of_resultType? {left right : TypeTag} (h : op.resultType? left right ≠ none)
    (hjoins : ¬op.Joins left right) : op ∈ (category left right).operations := by
  unfold resultType? at h
  split at h
  · exact mem_operations_of_numberType? h
  · exact mem_operations_of_numberType? h
  · exact mem_operations_of_numberType? h
  · exact mem_operations_of_numberType? h
  · split at h
    · simp_all [category, TypeTag.operations, TypeTag.isNumber]
    · exact absurd rfl h
  · simp_all [category, TypeTag.operations, TypeTag.isNumber]
    grind
  · simp_all [category, TypeTag.operations, TypeTag.isNumber]
    grind
  · simp_all [Joins]
  · simp_all [Joins]
  · simp_all [Joins]
  · simp_all [Joins]
  · exact absurd rfl h

theorem mishap_of_applyCategory {left right : Item} (htype : op.resultType? left.tag right.tag ≠ none)
    (hjoins : ¬op.Joins left.tag right.tag) (h : op.applyCategory left right = .error kind) :
    op.Mishap left right kind := by
  have hmem := mem_operations_of_resultType? htype hjoins
  unfold applyCategory at h
  rw [if_neg (by simpa using hmem)] at h
  split at h
  · exact mishap_of_applyInt htype h
  · exact mishap_of_applyFloat rfl id htype h
  · exact mishap_of_applyFloat rfl id htype h
  · exact mishap_of_applyFloat rfl .inr htype h
  · obtain ⟨item, hitem⟩ := applyBool_isOk htype _ _
    rw [hitem] at h
    cases h
  · obtain ⟨item, hitem⟩ := applyString_isOk htype _ _
    rw [hitem] at h
    cases h
  · exact mishap_of_applyChar htype h
  · -- no other two types have a result type, but for those that are joined
    exfalso
    cases left <;> cases right <;> simp_all [resultType?, Joins, Item.tag]

/-- Operands that have a result type let an operator fail only in the ways listed. -/
theorem mishap_of_apply {left right : Item} (htype : op.resultType? left.tag right.tag ≠ none)
    (h : op.apply left right = .error kind) : op.Mishap left right kind := by
  unfold apply at h
  rw [if_neg (by simpa using admits_of_resultType? htype)] at h
  split at h
  · exact mishap_of_repeated (.inl ⟨rfl, rfl⟩) h
  · exact mishap_of_repeated (.inr ⟨rfl, rfl⟩) h
  · cases h
  · cases h
  · refine mishap_of_applyCategory htype ?_ h
    rintro (⟨rfl, hjoins⟩ | ⟨rfl, hjoins⟩) <;> cases left <;> cases right <;> simp_all [Item.tag]

theorem mishap_of_applyUnary {operand : Item} (htype : op.unaryType? operand.tag ≠ none)
    (h : op.applyUnary operand = .error kind) : op.UnaryMishap operand kind := by
  unfold applyUnary at h
  split at h
  · split at h
    · cases h
    · obtain ⟨rfl, hnone⟩ := runtime_of_orOverflow h
      exact .inexact _ (Integer.narrow?_eq_none_iff.1 hnone)
    · cases h
    · cases op <;> simp_all [unaryType?, Item.tag, isUnary]
  · split at h
    · cases h
    · cases h
    · cases h
    · cases op <;> simp_all [unaryType?, Item.tag, isUnary]
  · cases op <;> simp_all [unaryType?, Item.tag]
  · cases operand <;> simp_all [unaryType?, Item.tag]

end Operator

namespace OperatorTree

/-! ## Trees -/

/-- The type of a tree: that of its value, or what its operator makes of the types of its operands. -/
def typeOf? : OperatorTree → Option TypeTag
  | value item => some item.tag
  | paren inner => inner.typeOf?
  | unary op operand => operand.typeOf?.bind op.unaryType?
  | binary op left right => left.typeOf?.bind fun l => right.typeOf?.bind fun r => op.resultType? l r

/-- The evaluation of a tree comes to an operator that fails by a mishap on the values of its operands. -/
inductive Stops : OperatorTree → ErrorKind → Prop where
  | paren {inner : OperatorTree} {kind : ErrorKind} : Stops inner kind → Stops (paren inner) kind
  | operand {op : Operator} {operand : OperatorTree} {kind : ErrorKind} : Stops operand kind →
      Stops (unary op operand) kind
  | unary {op : Operator} {operand : OperatorTree} {x : Item} {kind : ErrorKind} : operand.eval = .ok x →
      op.UnaryMishap x kind → Stops (unary op operand) kind
  | left {op : Operator} {left right : OperatorTree} {kind : ErrorKind} : Stops left kind →
      Stops (binary op left right) kind
  | right {op : Operator} {left right : OperatorTree} {x : Item} {kind : ErrorKind} : left.eval = .ok x →
      Stops right kind → Stops (binary op left right) kind
  | binary {op : Operator} {left right : OperatorTree} {x y : Item} {kind : ErrorKind} : left.eval = .ok x →
      right.eval = .ok y → op.Mishap x y kind → Stops (binary op left right) kind

/-- The errors that are left for a tree with a type. -/
theorem Stops.kinds {tree : OperatorTree} {kind : ErrorKind} (h : tree.Stops kind) :
    kind = .zeroDivision ∨ (∃ message, kind = .runtime message) ∨
      (∃ operand, kind = .unfitOperands Operator.mul.symbol operand) ∨
      ∃ op ∈ [Operator.add, .sub], kind = .undefinedOperation op.symbol TypeTag.char.name := by
  induction h with
  | paren _ ih => exact ih
  | operand _ ih => exact ih
  | left _ ih => exact ih
  | right _ _ ih => exact ih
  | unary _ hmishap =>
    cases hmishap with
    | inexact message => exact .inr (.inl ⟨message, rfl⟩)
  | binary _ _ hmishap =>
    cases hmishap with
    | zeroDivision => exact .inl rfl
    | inexact message => exact .inr (.inl ⟨message, rfl⟩)
    | tooLong message => exact .inr (.inl ⟨message, rfl⟩)
    | negative operand => exact .inr (.inr (.inl ⟨operand, rfl⟩))
    | noSum => exact .inr (.inr (.inr ⟨.add, by simp, rfl⟩))
    | noDifference => exact .inr (.inr (.inr ⟨.sub, by simp, rfl⟩))

/-- A tree that has a value has the type of the value. -/
theorem typeOf?_of_eval {tree : OperatorTree} {item : Item} (h : tree.eval = .ok item) :
    tree.typeOf? = some item.tag := by
  induction tree generalizing item with
  | value _ =>
    cases h
    rfl
  | paren inner ih => exact ih h
  | unary op operand ih =>
    rw [eval] at h
    cases hoperand : operand.eval with
    | error kind =>
      rw [hoperand] at h
      cases h
    | ok x =>
      rw [hoperand] at h
      rw [typeOf?, ih hoperand]
      exact Operator.unaryType?_of_applyUnary h
  | binary op left right ihl ihr =>
    rw [eval] at h
    cases hleft : left.eval with
    | error kind =>
      rw [hleft] at h
      cases h
    | ok x =>
      cases hright : right.eval with
      | error kind =>
        rw [hleft, hright] at h
        cases h
      | ok y =>
        rw [hleft, hright] at h
        rw [typeOf?, ihl hleft, ihr hright]
        exact Operator.resultType?_of_apply h

/-- A tree that has a type and no value comes to a mishap. -/
theorem stops_of_eval {tree : OperatorTree} {kind : ErrorKind} (htype : tree.typeOf? ≠ none)
    (h : tree.eval = .error kind) : tree.Stops kind := by
  induction tree generalizing kind with
  | value _ => cases h
  | paren inner ih => exact .paren (ih htype h)
  | unary op operand ih =>
    rw [eval] at h
    have hoperandType : operand.typeOf? ≠ none := by
      intro hnone
      rw [typeOf?, hnone] at htype
      exact htype rfl
    cases hoperand : operand.eval with
    | error first =>
      rw [hoperand] at h
      cases h
      exact .operand (ih hoperandType hoperand)
    | ok x =>
      rw [hoperand] at h
      rw [typeOf?, typeOf?_of_eval hoperand] at htype
      exact .unary hoperand (Operator.mishap_of_applyUnary htype h)
  | binary op left right ihl ihr =>
    rw [eval] at h
    have hleftType : left.typeOf? ≠ none := by
      intro hnone
      rw [typeOf?, hnone] at htype
      exact htype rfl
    have hrightType : right.typeOf? ≠ none := by
      intro hnone
      rw [typeOf?, hnone] at htype
      exact htype (by cases left.typeOf? <;> rfl)
    cases hleft : left.eval with
    | error first =>
      rw [hleft] at h
      cases h
      exact .left (ihl hleftType hleft)
    | ok x =>
      cases hright : right.eval with
      | error first =>
        rw [hleft, hright] at h
        cases h
        exact .right hleft (ihr hrightType hright)
      | ok y =>
        rw [hleft, hright] at h
        rw [typeOf?, typeOf?_of_eval hleft, typeOf?_of_eval hright] at htype
        exact .binary hleft hright (Operator.mishap_of_apply htype h)

/-- An expression that has a value has a type, which is that of the value. An expression that has a type has a value, or
comes to one of few errors at its line: a division by zero, a result that does not fit, a string that is repeated
a negative number of times, or a sum or difference of characters that is no character. -/
theorem calculate_typed (tree : OperatorTree) (htree : tree.Grouped) (line : Nat) :
    (∀ item, Expression.calculate ⟨tree.written, line⟩ = .ok item → tree.typeOf? = some item.tag) ∧
      ∀ error, tree.typeOf? ≠ none → Expression.calculate ⟨tree.written, line⟩ = .error error →
        error.line = line ∧ tree.Stops error.kind ∧
          (error.kind = .zeroDivision ∨ (∃ message, error.kind = .runtime message) ∨
            (∃ operand, error.kind = .unfitOperands Operator.mul.symbol operand) ∨
            ∃ op ∈ [Operator.add, .sub], error.kind = .undefinedOperation op.symbol TypeTag.char.name) := by
  rw [Expression.calculate, value_of_read? (read?_written htree)]
  cases heval : tree.eval with
  | ok item =>
    constructor
    · rintro _ ⟨⟩
      exact typeOf?_of_eval heval
    · rintro _ - ⟨⟩
  | error kind =>
    constructor
    · rintro _ ⟨⟩
    · rintro _ htype ⟨⟩
      have hstops := stops_of_eval htype heval
      exact ⟨rfl, hstops, hstops.kinds⟩

/-- The expression `"ab" * -2 == 'c' + "d"` has a type, but it comes to a negative number of repetitions. -/
theorem calculate_typed_repetition :
    (binary .equal (binary .mul (value (.string "ab")) (unary .minus (value (.int 2))))
      (binary .add (value (.char 'c')) (value (.string "d")))).Grouped ∧
    (binary .equal (binary .mul (value (.string "ab")) (unary .minus (value (.int 2))))
      (binary .add (value (.char 'c')) (value (.string "d")))).typeOf? = some .bool ∧
    Expression.calculate ⟨[.value (.string "ab"), .operator .mul, .operator .minus, .value (.int 2), .operator .equal,
      .value (.char 'c'), .operator .add, .value (.string "d")], 3⟩ =
        .error ⟨.unfitOperands "*" "String and negative Int -2", 3⟩ ∧
    (binary .equal (binary .mul (value (.string "ab")) (unary .minus (value (.int 2))))
      (binary .add (value (.char 'c')) (value (.string "d")))).Stops
        (.unfitOperands "*" "String and negative Int -2") := by
  have hgrouped : (binary .equal (binary .mul (value (.string "ab")) (unary .minus (value (.int 2))))
      (binary .add (value (.char 'c')) (value (.string "d")))).Grouped := by decide
  have hcalculate : Expression.calculate ⟨[.value (.string "ab"), .operator .mul, .operator .minus, .value (.int 2),
      .operator .equal, .value (.char 'c'), .operator .add, .value (.string "d")], 3⟩ =
        .error ⟨.unfitOperands "*" "String and negative Int -2", 3⟩ := rfl
  exact ⟨hgrouped, rfl, hcalculate, ((calculate_typed _ hgrouped 3).2 _ (Option.some_ne_none _) hcalculate).2.1⟩

end OperatorTree

end GradualScript
