/-!
# Binary64 numbers

* `Binary64.Parts`, `Binary64.parts` : a float as a sign, a coefficient and a power of two;
* `Binary64.ofRatio` : the float nearest to a fraction, a half going to the even neighbour;
* `Binary64.remainder` : the exact remainder of a division that rounds towards zero.
-/

set_option autoImplicit false

namespace GradualScript.Binary64

/-! ## Parts -/

/-- What a float is. The magnitude of a finite one is `coefficient * 2 ^ exponent`. -/
inductive Parts where
  | nan
  | infinite (negative : Bool)
  | finite (negative : Bool) (coefficient : Nat) (exponent : Int)
deriving DecidableEq

/-- The exponent of the smallest floats. -/
def minExponent : Int := -1074

/-- The least coefficient of 53 bits; the bits below it are stored, and the exponent is stored above them. -/
def leadingBit : Nat := 0x10000000000000

/-- The bit of the sign, above the exponent. -/
def signBit : Nat := 0x8000000000000000

/-- The stored exponent of the infinities and of what is not a number. -/
def specialExponent : Nat := 2047

/-- The parts of a float, read off its bits. -/
def parts (x : Float) : Parts :=
  let bits := x.toBits.toNat
  let negative := signBit ≤ bits
  let exponent := bits % signBit / leadingBit
  let fraction := bits % leadingBit
  if exponent = specialExponent then
    if fraction = 0 then .infinite negative else .nan
  else if exponent = 0 then .finite negative fraction minExponent
  else .finite negative (leadingBit + fraction) (minExponent + (exponent - 1 : Nat))

/-! ## Rounding -/

/-- The integer nearest to `num / den`, a half going to the even neighbour. -/
def roundHalfEven (num den : Nat) : Nat :=
  let quotient := num / den
  let twice := 2 * (num % den)
  if twice < den then quotient else if den < twice then quotient + 1 else quotient + quotient % 2

/-- The fraction `num / den` divided by `base ^ exponent`. -/
def rescale (base : Nat) (exponent : Int) (num den : Nat) : Nat × Nat :=
  (num * base.pow (-exponent).toNat, den * base.pow exponent.toNat)

/-- The greatest `k` with `2 ^ k ≤ num / den`, for a fraction that is not zero. -/
def leadingExponent (num den : Nat) : Int :=
  let guess : Int := num.log2 - den.log2
  let (n, d) := rescale 2 guess num den
  if d ≤ n then guess else guess - 1

/-- The bits of the float nearest to `num / den`. A coefficient has 53 bits, or fewer at the least exponent;
one that rounds up to 54 bits carries over into the exponent. -/
def magnitudeBits (num den : Nat) : Nat :=
  if num = 0 then 0
  else
    let exponent := max minExponent (leadingExponent num den - 52)
    let (n, d) := rescale 2 exponent num den
    min (specialExponent * leadingBit) ((exponent - minExponent).toNat * leadingBit + roundHalfEven n d)

/-- The float of a sign and the bits of a magnitude. -/
def ofMagnitude (negative : Bool) (bits : Nat) : Float :=
  Float.ofBits (UInt64.ofNat (if negative then signBit + bits else bits))

/-- The float nearest to `num / den` or, if `negative` holds, to `- num / den`. -/
def ofRatio (negative : Bool) (num den : Nat) : Float :=
  ofMagnitude negative (magnitudeBits num den)

/-- The infinity of a sign. -/
def infinity (negative : Bool) : Float :=
  ofMagnitude negative (specialExponent * leadingBit)

/-- The float that is not a number. -/
def nan : Float :=
  ofMagnitude false (specialExponent * leadingBit + leadingBit / 2)

/-! ## Remainder -/

/-- The remainder of `x / y`, with the sign of `x`: both are multiples of the smaller of their powers of two,
and so is the remainder, which is therefore exact. There is none of an infinity or by zero. -/
def remainder (x y : Float) : Float :=
  match parts x, parts y with
  | .nan, _ | _, .nan | .infinite _, _ => nan
  | .finite _ _ _, .infinite _ => x
  | .finite negative c e, .finite _ c' e' =>
    if c' = 0 then nan
    else
      let unit := min e e'
      let rest := (c * Nat.pow 2 (e - unit).toNat) % (c' * Nat.pow 2 (e' - unit).toNat)
      let (num, den) := rescale 2 (-unit) rest 1
      ofRatio negative num den

end GradualScript.Binary64
