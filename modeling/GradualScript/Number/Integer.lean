/-!
# Checked 64-bit integers

* `Integer.narrow?` : an integer as a 64-bit one, if it lies in range;
* `Integer.add?` … `Integer.power?` : arithmetic that is exact or has no result.
-/

set_option autoImplicit false

namespace GradualScript.Integer

/-- The integer lies in the range of 64 bits. -/
def InRange (z : Int) : Prop :=
  -0x8000000000000000 ≤ z ∧ z < 0x8000000000000000

instance (z : Int) : Decidable (InRange z) :=
  inferInstanceAs (Decidable (_ ∧ _))

/-- The 64-bit integer with this value, if there is one. -/
def narrow? (z : Int) : Option Int64 :=
  if InRange z then some (Int64.ofInt z) else none

theorem narrow?_eq_some_iff {z : Int} {x : Int64} : narrow? z = some x ↔ x.toInt = z := by
  unfold narrow?
  constructor
  · intro h
    split at h
    · rename_i hz
      rw [← Option.some.inj h]
      exact Int64.toInt_ofInt_of_le hz.1 hz.2
    · simp at h
  · intro h
    have hx : InRange z := by
      rw [← h]
      exact ⟨Int64.le_toInt x, Int64.toInt_lt x⟩
    rw [if_pos hx, ← h, Int64.ofInt_toInt]

theorem narrow?_eq_none_iff {z : Int} : narrow? z = none ↔ ¬InRange z := by
  unfold narrow?
  split <;> simp_all

def add? (x y : Int64) : Option Int64 :=
  narrow? (x.toInt + y.toInt)

def sub? (x y : Int64) : Option Int64 :=
  narrow? (x.toInt - y.toInt)

def mul? (x y : Int64) : Option Int64 :=
  narrow? (x.toInt * y.toInt)

/-- The quotient towards zero, by a divisor that is not zero. -/
def div? (x y : Int64) : Option Int64 :=
  narrow? (x.toInt.tdiv y.toInt)

/-- The remainder with the sign of `x`. It has no result where the quotient has none. -/
def mod? (x y : Int64) : Option Int64 :=
  if (div? x y).isSome then narrow? (x.toInt.tmod y.toInt) else none

def neg? (x : Int64) : Option Int64 :=
  narrow? (-x.toInt)

/-- The power `x ^ n`. A base past one in size leaves the range by the 64th power, and the other bases have the
same first or second power again and again. -/
def power? (x : Int64) (n : Nat) : Option Int64 :=
  if x.toInt.natAbs ≤ 1 then narrow? (x.toInt.pow (min n (2 - n % 2)))
  else if n < 64 then narrow? (x.toInt.pow n)
  else none

end GradualScript.Integer
