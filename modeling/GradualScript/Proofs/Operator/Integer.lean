import Mathlib.Algebra.Ring.Int.Parity
import Mathlib.Tactic.NormNum
import GradualScript.Operator.Apply

/-!
# Arithmetic on integers

* `Integer.inRange_tdiv`, `Integer.inRange_tmod` : which quotients and remainders are in range;
* `Integer.power?_eq_narrow?` : powers are exact, whatever the exponent is;
* `Operator.onIntegers?` : what an operator gives on integers of any size;
* `Operator.Settled` : the answer of an operation whose exact result is known;
* `apply_int_exact` : arithmetic on 64-bit integers is exact or fails;
* `apply_power_iff` : when a power has a value, overflows or is refused for its exponent.
-/

set_option autoImplicit false

namespace GradualScript

namespace Integer

/-! ## Quotients and remainders -/

theorem inRange_toInt (x : Int64) : InRange x.toInt :=
  ⟨Int64.le_toInt x, Int64.toInt_lt x⟩

theorem toInt_ne_zero {y : Int64} (h : y ≠ 0) : y.toInt ≠ 0 := by
  intro hzero
  apply h
  exact Int64.toInt_inj.1 hzero

/-- `q` is `x / y` without its fraction, and `r` is what is left over, which has the sign of `x`. -/
structure Truncated (x y q r : Int) : Prop where
  split : x = y * q + r
  small : r.natAbs < y.natAbs
  sign : r ≠ 0 → (r < 0 ↔ x < 0)

theorem truncated_tdiv (x : Int) {y : Int} (hy : y ≠ 0) : Truncated x y (x.tdiv y) (x.tmod y) where
  split := (Int.mul_tdiv_add_tmod x y).symm
  small := by
    rw [Int.natAbs_tmod]
    exact Nat.mod_lt _ (Int.natAbs_pos.2 hy)
  sign := by
    intro hr
    rcases Int.lt_or_le x 0 with hx | hx
    · have h := Int.tmod_nonneg y (show 0 ≤ -x by omega)
      rw [Int.neg_tmod] at h
      omega
    · have h := Int.tmod_nonneg y hx
      omega

/-- Of the quotients of 64-bit integers only one is out of range. -/
theorem inRange_tdiv {x y : Int} (hx : InRange x) (hy : y ≠ 0) :
    InRange (x.tdiv y) ↔ ¬(x = -0x8000000000000000 ∧ y = -1) := by
  unfold InRange at hx ⊢
  by_cases hone : y = -1
  · rw [hone, Int.tdiv_neg, Int.tdiv_one]
    omega
  · by_cases hpos : y = 1
    · rw [hpos, Int.tdiv_one]
      omega
    · -- any other divisor halves the size at least
      have hhalf : (x.tdiv y).natAbs ≤ x.natAbs / 2 := by
        rw [Int.natAbs_tdiv]
        exact Nat.div_le_div_left (by omega) (by decide)
      omega

theorem inRange_tmod {x : Int} (hx : InRange x) {y : Int} (hy : y ≠ 0) : InRange (x.tmod y) := by
  obtain ⟨-, -, hsign⟩ := truncated_tdiv x hy
  have hle : (x.tmod y).natAbs ≤ x.natAbs := by
    rw [Int.natAbs_tmod]
    exact Nat.mod_le _ _
  unfold InRange at hx ⊢
  omega

/-- A remainder has a value where the quotient has one. -/
theorem mod?_eq_narrow? {x y : Int64} (h : InRange (x.toInt.tdiv y.toInt)) :
    mod? x y = narrow? (x.toInt.tmod y.toInt) := by
  have hsome : (div? x y).isSome = true := by
    unfold div? narrow?
    rw [if_pos h]
    rfl
  rw [mod?, if_pos hsome]

theorem mod?_eq_none {x y : Int64} (h : ¬InRange (x.toInt.tdiv y.toInt)) : mod? x y = none := by
  have hnone : div? x y = none := narrow?_eq_none_iff.2 h
  rw [mod?, hnone]
  rfl

/-! ## Powers -/

/-- The powers of `-1`, `0` and `1` repeat. -/
theorem pow_of_natAbs_le_one {z : Int} (hz : z.natAbs ≤ 1) (n : Nat) : z ^ min n (2 - n % 2) = z ^ n := by
  have hcases : z = 0 ∨ z = 1 ∨ z = -1 := by omega
  rcases hcases with rfl | rfl | rfl
  · rcases Nat.eq_zero_or_pos n with rfl | hn
    · rfl
    · rw [zero_pow (by omega), zero_pow (by omega)]
  · rw [one_pow, one_pow]
  · rcases Nat.even_or_odd n with heven | hodd
    · have hmin : Even (min n (2 - n % 2)) := by
        rw [Nat.even_iff] at heven ⊢
        omega
      rw [heven.neg_one_pow, hmin.neg_one_pow]
    · have hmin : Odd (min n (2 - n % 2)) := by
        rw [Nat.odd_iff] at hodd ⊢
        omega
      rw [hodd.neg_one_pow, hmin.neg_one_pow]

theorem inRange_pow_of_natAbs_le_one {z : Int} (hz : z.natAbs ≤ 1) (n : Nat) : InRange (z ^ n) := by
  have hle : (z ^ n).natAbs ≤ 1 := by
    rw [Int.natAbs_pow]
    exact pow_le_one₀ (Nat.zero_le _) hz
  unfold InRange
  omega

/-- Any other base leaves the range by its 64th power. -/
theorem not_inRange_pow {z : Int} (hz : 1 < z.natAbs) {n : Nat} (hn : 64 ≤ n) : ¬InRange (z ^ n) := by
  have hle : 0x10000000000000000 ≤ (z ^ n).natAbs := calc
    0x10000000000000000 = 2 ^ 64 := by norm_num
    _ ≤ 2 ^ n := Nat.pow_le_pow_right (by decide) hn
    _ ≤ z.natAbs ^ n := Nat.pow_le_pow_left hz n
    _ = (z ^ n).natAbs := (Int.natAbs_pow z n).symm
  unfold InRange
  omega

/-- Powers are exact for every exponent: the short cuts that they are computed by do not show. -/
theorem power?_eq_narrow? (x : Int64) (n : Nat) : power? x n = narrow? (x.toInt ^ n) := by
  unfold power?
  split
  · rename_i hbase
    exact congrArg narrow? (pow_of_natAbs_le_one hbase n)
  · rename_i hbase
    split
    · rfl
    · rename_i hn
      exact (narrow?_eq_none_iff.2 (not_inRange_pow (by omega) (by omega))).symm

end Integer

namespace Operator

open Integer (InRange Truncated narrow?)

/-! ## Answers -/

/-- The answer to an operation whose exact result is known: the result if it is in range, and the overflow of the
operation if it is not. -/
def Settled (operation : String) (result : Int) (answer : Except ErrorKind Item) : Prop :=
  if InRange result then ∃ r : Int64, r.toInt = result ∧ answer = .ok (.int r)
  else answer = .error (.runtime ("integer overflow in " ++ operation))

theorem settled_narrow? (operation : String) (z : Int) : Settled operation z (orOverflow operation (narrow? z)) := by
  unfold Settled
  split
  · rename_i hz
    refine ⟨Int64.ofInt z, Int64.toInt_ofInt_of_le hz.1 hz.2, ?_⟩
    rw [narrow?, if_pos hz, orOverflow]
  · rename_i hz
    rw [narrow?, if_neg hz, orOverflow]

theorem Settled.toInt_eq {operation : String} {result : Int} {answer : Except ErrorKind Item} {r : Int64}
    (h : Settled operation result answer) (hr : answer = .ok (.int r)) : r.toInt = result := by
  unfold Settled at h
  split at h
  · obtain ⟨r', hr', hanswer⟩ := h
    rw [hr] at hanswer
    cases hanswer
    exact hr'
  · rw [hr] at h
    cases h

/-- The result of an operator on integers of any size, where it has one. -/
def onIntegers? (op : Operator) (x y : Int) : Option Int :=
  match op with
  | add => some (x + y)
  | sub => some (x - y)
  | mul => some (x * y)
  | div => if y = 0 then none else some (x.tdiv y)
  | mod => if y = 0 then none else some (x.tmod y)
  | power => if 0 ≤ y then some (x ^ y.toNat) else none
  | _ => none

/-! ## Operators on two integers -/

theorem apply_int (op : Operator) (x y : Int64) : op.apply (.int x) (.int y) = op.applyInt x y := by
  cases op <;> rfl

theorem applyInt_div {x y : Int64} (hy : y ≠ 0) :
    div.applyInt x y = orOverflow "division" (Integer.div? x y) := by
  have hguard : ((div = div || div = mod) && (y = 0 : Bool)) = false := by simp [hy]
  rw [applyInt, hguard]
  rfl

theorem applyInt_mod {x y : Int64} (hy : y ≠ 0) :
    mod.applyInt x y = orOverflow "remainder" (Integer.mod? x y) := by
  have hguard : ((mod = div || mod = mod) && (y = 0 : Bool)) = false := by simp [hy]
  rw [applyInt, hguard]
  rfl

/-- The exponents that a power is computed for. -/
def takesExponent (y : Int64) : Prop :=
  0 ≤ y.toInt ∧ y.toInt < 0x100000000

theorem applyInt_power_of_takes {y : Int64} (h : takesExponent y) (x : Int64) :
    power.applyInt x y = orOverflow "exponentiation" (narrow? (x.toInt ^ y.toInt.toNat)) := by
  rw [← Integer.power?_eq_narrow?]
  exact if_pos h

theorem applyInt_power_of_not_takes {y : Int64} (h : ¬takesExponent y) (x : Int64) :
    power.applyInt x y = .error (.runtime ("Int cannot be raised to negative power " ++ toString y.toInt)) :=
  if_neg h

theorem settled_power {y : Int64} (h : takesExponent y) (x : Int64) :
    Settled "exponentiation" (x.toInt ^ y.toInt.toNat) (power.apply (.int x) (.int y)) := by
  rw [apply_int, applyInt_power_of_takes h]
  exact settled_narrow? _ _

/-- Division and remainder have results together. -/
theorem apply_div_mod {x y : Int64} (hy : y ≠ 0) (hedge : ¬(x.toInt = -0x8000000000000000 ∧ y.toInt = -1)) :
    ∃ q r : Int64, q.toInt = x.toInt.tdiv y.toInt ∧ r.toInt = x.toInt.tmod y.toInt ∧
      div.apply (.int x) (.int y) = .ok (.int q) ∧ mod.apply (.int x) (.int y) = .ok (.int r) := by
  have hy' := Integer.toInt_ne_zero hy
  have hquotient := (Integer.inRange_tdiv (Integer.inRange_toInt x) hy').2 hedge
  have hremainder := Integer.inRange_tmod (Integer.inRange_toInt x) hy'
  refine ⟨Int64.ofInt _, Int64.ofInt _, Int64.toInt_ofInt_of_le hquotient.1 hquotient.2,
    Int64.toInt_ofInt_of_le hremainder.1 hremainder.2, ?_, ?_⟩
  · rw [apply_int, applyInt_div hy, Integer.div?, narrow?, if_pos hquotient, orOverflow]
  · rw [apply_int, applyInt_mod hy, Integer.mod?_eq_narrow? hquotient, narrow?, if_pos hremainder, orOverflow]

theorem apply_div_mod_edge {x y : Int64} (hx : x.toInt = -0x8000000000000000) (hy : y.toInt = -1) :
    div.apply (.int x) (.int y) = .error (.runtime "integer overflow in division") ∧
      mod.apply (.int x) (.int y) = .error (.runtime "integer overflow in remainder") := by
  have hne : y ≠ 0 := by
    rintro rfl
    cases hy
  have hquotient : ¬InRange (x.toInt.tdiv y.toInt) := fun h =>
    (Integer.inRange_tdiv (Integer.inRange_toInt x) (Integer.toInt_ne_zero hne)).1 h ⟨hx, hy⟩
  constructor
  · rw [apply_int, applyInt_div hne, Integer.div?, narrow?, if_neg hquotient]
    rfl
  · rw [apply_int, applyInt_mod hne, Integer.mod?_eq_none hquotient]
    rfl

theorem apply_zero (x : Int64) {op : Operator} (hop : op = div ∨ op = mod) :
    op.apply (.int x) (.int 0) = .error .zeroDivision := by
  rcases hop with rfl | rfl <;> rfl

/-- Division gives no other value than the quotient and the remainder. -/
theorem toInt_of_apply_div_mod {x y r : Int64} :
    (div.apply (.int x) (.int y) = .ok (.int r) → y.toInt ≠ 0 ∧ r.toInt = x.toInt.tdiv y.toInt) ∧
      (mod.apply (.int x) (.int y) = .ok (.int r) → y.toInt ≠ 0 ∧ r.toInt = x.toInt.tmod y.toInt) := by
  by_cases hy : y = 0
  · rw [hy, apply_zero x (.inl rfl), apply_zero x (.inr rfl)]
    exact ⟨(nomatch ·), (nomatch ·)⟩
  by_cases hedge : x.toInt = -0x8000000000000000 ∧ y.toInt = -1
  · obtain ⟨hdiv, hmod⟩ := apply_div_mod_edge hedge.1 hedge.2
    rw [hdiv, hmod]
    exact ⟨(nomatch ·), (nomatch ·)⟩
  obtain ⟨q, m, hq, hm, hdiv, hmod⟩ := apply_div_mod hy hedge
  rw [hdiv, hmod]
  constructor
  · rintro ⟨⟩
    exact ⟨Integer.toInt_ne_zero hy, hq⟩
  · rintro ⟨⟩
    exact ⟨Integer.toInt_ne_zero hy, hm⟩

/-- A value that arithmetic gives is the exact result. -/
theorem onIntegers?_of_apply {op : Operator} {x y r : Int64} (h : op.apply (.int x) (.int y) = .ok (.int r)) :
    op.onIntegers? x.toInt y.toInt = some r.toInt := by
  cases op with
  | add => exact congrArg some (Settled.toInt_eq (settled_narrow? "addition" _) h).symm
  | sub => exact congrArg some (Settled.toInt_eq (settled_narrow? "subtraction" _) h).symm
  | mul => exact congrArg some (Settled.toInt_eq (settled_narrow? "multiplication" _) h).symm
  | div =>
    obtain ⟨hy, hr⟩ := toInt_of_apply_div_mod.1 h
    rw [hr]
    exact if_neg hy
  | mod =>
    obtain ⟨hy, hr⟩ := toInt_of_apply_div_mod.2 h
    rw [hr]
    exact if_neg hy
  | power =>
    by_cases htakes : takesExponent y
    · rw [(settled_power htakes x).toInt_eq h]
      exact if_pos htakes.1
    · rw [apply_int, applyInt_power_of_not_takes htakes] at h
      cases h
  | _ => cases h

/-- Arithmetic on two 64-bit integers. Each operator gives its exact result or fails. -/
structure ExactOn (x y : Int64) : Prop where
  sum : Settled "addition" (x.toInt + y.toInt) (add.apply (.int x) (.int y))
  difference : Settled "subtraction" (x.toInt - y.toInt) (sub.apply (.int x) (.int y))
  product : Settled "multiplication" (x.toInt * y.toInt) (mul.apply (.int x) (.int y))
  zero : y = 0 →
    div.apply (.int x) (.int y) = .error .zeroDivision ∧ mod.apply (.int x) (.int y) = .error .zeroDivision
  /-- The one quotient that is out of range; its remainder fails with it. -/
  edge : x.toInt = -0x8000000000000000 ∧ y.toInt = -1 →
    div.apply (.int x) (.int y) = .error (.runtime "integer overflow in division") ∧
      mod.apply (.int x) (.int y) = .error (.runtime "integer overflow in remainder")
  divided : y ≠ 0 → ¬(x.toInt = -0x8000000000000000 ∧ y.toInt = -1) →
    ∃ q r : Int64, Truncated x.toInt y.toInt q.toInt r.toInt ∧
      div.apply (.int x) (.int y) = .ok (.int q) ∧ mod.apply (.int x) (.int y) = .ok (.int r)
  raised : 0 ≤ y.toInt → y.toInt < 0x100000000 →
    Settled "exponentiation" (x.toInt ^ y.toInt.toNat) (power.apply (.int x) (.int y))
  negative : y.toInt < 0 → ∃ message, power.apply (.int x) (.int y) = .error (.runtime message)
  /-- No operator gives a value that is wrapped or cut off. -/
  exact : ∀ (op : Operator) (r : Int64), op.apply (.int x) (.int y) = .ok (.int r) →
    op.onIntegers? x.toInt y.toInt = some r.toInt

theorem apply_int_exact (x y : Int64) : ExactOn x y where
  sum := settled_narrow? _ _
  difference := settled_narrow? _ _
  product := settled_narrow? _ _
  zero := by
    rintro rfl
    exact ⟨apply_zero x (.inl rfl), apply_zero x (.inr rfl)⟩
  edge h := apply_div_mod_edge h.1 h.2
  divided := by
    intro hy hedge
    obtain ⟨q, r, hq, hr, hdiv, hmod⟩ := apply_div_mod hy hedge
    refine ⟨q, r, ?_, hdiv, hmod⟩
    rw [hq, hr]
    exact Integer.truncated_tdiv _ (Integer.toInt_ne_zero hy)
  raised hle hlt := settled_power ⟨hle, hlt⟩ x
  negative := by
    intro hy
    rw [apply_int, applyInt_power_of_not_takes fun h => absurd h.1 (by omega)]
    exact ⟨_, rfl⟩
  exact _ _ := onIntegers?_of_apply

/-- At the ends of the range: a power that lands on the least integer, and its quotient by `-1`. -/
theorem apply_int_exact_least :
    (-2 : Int64).toInt ^ (63 : Int64).toInt.toNat = -0x8000000000000000 ∧
      power.apply (.int (-2)) (.int 63) = .ok (.int Int64.minValue) ∧
      div.apply (.int Int64.minValue) (.int (-1)) = .error (.runtime "integer overflow in division") ∧
      mod.apply (.int Int64.minValue) (.int (-1)) = .error (.runtime "integer overflow in remainder") ∧
      ∃ q r : Int64, Truncated (-7) 2 q.toInt r.toInt ∧ div.apply (.int (-7)) (.int 2) = .ok (.int q) ∧
        mod.apply (.int (-7)) (.int 2) = .ok (.int r) := by
  have hpower : (-2 : Int64).toInt ^ (63 : Int64).toInt.toNat = -0x8000000000000000 := by decide
  have hraised := (apply_int_exact (-2) 63).raised (by decide) (by decide)
  rw [hpower, Settled, if_pos (by decide)] at hraised
  obtain ⟨r, hr, hvalue⟩ := hraised
  have hleast : r = Int64.minValue := Int64.toInt_inj.1 hr
  rw [hleast] at hvalue
  obtain ⟨hdiv, hmod⟩ := (apply_int_exact Int64.minValue (-1)).edge (by decide)
  exact ⟨hpower, hvalue, hdiv, hmod, (apply_int_exact (-7) 2).divided (by decide) (by decide)⟩

/-! ## Exponents -/

/-- The answer to a power whose exponent is refused. -/
def refusedExponent (y : Int64) : Except ErrorKind Item :=
  .error (.runtime ("Int cannot be raised to negative power " ++ toString y.toInt))

/-- A power that is computed is not taken for one whose exponent is refused. -/
theorem orOverflow_ne_refusedExponent (result : Option Int64) (y : Int64) :
    orOverflow "exponentiation" result ≠ refusedExponent y := by
  intro h
  cases result with
  | some value => cases h
  | none =>
    injection h with h
    injection h with h
    have hhead := congrArg (fun text => text.toList.head?) h
    simp at hhead

theorem orOverflow_narrow?_eq_ok {operation : String} {z : Int} {r : Int64} :
    orOverflow operation (narrow? z) = .ok (.int r) ↔ r.toInt = z := by
  rw [← Integer.narrow?_eq_some_iff]
  cases narrow? z with
  | some value =>
    show Except.ok (Item.int value) = .ok (.int r) ↔ some value = some r
    simp
  | none =>
    show Except.error (ErrorKind.runtime _) = Except.ok (Item.int r) ↔ none = some r
    simp

theorem orOverflow_narrow?_eq_error {operation : String} {z : Int} :
    orOverflow operation (narrow? z) = .error (.runtime ("integer overflow in " ++ operation)) ↔ ¬InRange z := by
  rw [← Integer.narrow?_eq_none_iff]
  cases narrow? z with
  | some value =>
    show Except.ok (Item.int value) = .error _ ↔ some value = none
    simp
  | none => exact ⟨fun _ => rfl, fun _ => rfl⟩

/-- The power of a base past one in size is out of range for an exponent as large as those that are refused. -/
theorem inRange_pow_iff {x y : Int64} (hy : 0x100000000 ≤ y.toInt) :
    InRange (x.toInt ^ y.toInt.toNat) ↔ x.toInt.natAbs ≤ 1 := by
  constructor
  · intro h
    by_contra hbase
    exact Integer.not_inRange_pow (by omega) (by omega) h
  · intro h
    exact Integer.inRange_pow_of_natAbs_le_one h _

/-- A power has a value just if its exponent is taken and the power is in range. The exponents that are refused are
those below zero and those from `2 ^ 32` on, although the powers of `-1`, `0` and `1` are in range for these too. -/
theorem apply_power_iff (x y : Int64) :
    (∀ r : Int64, power.apply (.int x) (.int y) = .ok (.int r) ↔
      (0 ≤ y.toInt ∧ y.toInt < 0x100000000) ∧ r.toInt = x.toInt ^ y.toInt.toNat) ∧
    (power.apply (.int x) (.int y) = .error (.runtime "integer overflow in exponentiation") ↔
      (0 ≤ y.toInt ∧ y.toInt < 0x100000000) ∧ ¬InRange (x.toInt ^ y.toInt.toNat)) ∧
    (power.apply (.int x) (.int y) = refusedExponent y ↔ y.toInt < 0 ∨ 0x100000000 ≤ y.toInt) ∧
    (0x100000000 ≤ y.toInt → (InRange (x.toInt ^ y.toInt.toNat) ↔ x.toInt.natAbs ≤ 1)) := by
  by_cases htakes : takesExponent y
  · have hanswer : power.apply (.int x) (.int y) = orOverflow "exponentiation" (narrow? (x.toInt ^ y.toInt.toNat)) := by
      rw [apply_int, applyInt_power_of_takes htakes]
    refine ⟨fun r => ?_, ?_, ?_, inRange_pow_iff⟩
    · rw [hanswer, orOverflow_narrow?_eq_ok]
      exact ⟨fun h => ⟨htakes, h⟩, fun h => h.2⟩
    · rw [hanswer]
      exact orOverflow_narrow?_eq_error.trans ⟨fun h => ⟨htakes, h⟩, fun h => h.2⟩
    · rw [hanswer]
      refine ⟨fun h => absurd h (orOverflow_ne_refusedExponent _ y), fun h => ?_⟩
      unfold takesExponent at htakes
      omega
  · have hanswer : power.apply (.int x) (.int y) = refusedExponent y := by
      rw [apply_int, applyInt_power_of_not_takes htakes, refusedExponent]
    refine ⟨fun r => ?_, ?_, ?_, inRange_pow_iff⟩
    · rw [hanswer]
      exact ⟨fun h => (nomatch h), fun h => absurd h.1 htakes⟩
    · rw [hanswer]
      exact ⟨fun h => absurd h.symm (orOverflow_ne_refusedExponent none y), fun h => absurd h.1 htakes⟩
    · refine ⟨fun _ => ?_, fun _ => hanswer⟩
      unfold takesExponent at htakes
      omega

/-- The power is in range and the exponent is not negative, but it is refused as if it were. -/
theorem apply_power_one_huge :
    0 ≤ (4294967296 : Int64).toInt ∧ InRange ((1 : Int64).toInt ^ (4294967296 : Int64).toInt.toNat) ∧
      power.apply (.int 1) (.int 4294967296) =
        .error (.runtime "Int cannot be raised to negative power 4294967296") := by
  refine ⟨by decide, ?_, rfl⟩
  exact Integer.inRange_pow_of_natAbs_le_one (by decide) _

end Operator

end GradualScript
