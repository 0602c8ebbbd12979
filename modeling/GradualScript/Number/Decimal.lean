import GradualScript.Number.Binary64
import GradualScript.Number.Integer

/-!
# Decimal numerals

* `Decimal`, `Decimal.positional` : digits at a power of ten, written without an exponent;
* `Decimal.shortest` : the fewest digits that read back as a given float;
* `Decimal.ofFloat` : the text of a float;
* `Decimal.int?`, `Decimal.float?` : the number that a numeral denotes.
-/

set_option autoImplicit false

namespace GradualScript

/-- The number `digits * 10 ^ exponent`. -/
structure Decimal where
  digits : Nat
  exponent : Int
deriving DecidableEq

namespace Decimal

/-! ## Writing -/

/-- A decimal without an exponent: whole numbers have no point, and a point has a digit on either side. -/
def positional (decimal : Decimal) : List Char :=
  let digits := Nat.toDigits 10 decimal.digits
  let places := (-decimal.exponent).toNat
  if places = 0 then digits ++ List.replicate decimal.exponent.toNat '0'
  else
    let padded := List.replicate (places + 1 - digits.length) '0' ++ digits
    padded.take (padded.length - places) ++ '.' :: padded.drop (padded.length - places)

/-- The reals that round to a float, in quarters of the unit `2 ^ exponent` of its coefficient. The ends belong
to them if the coefficient is even; below a power of two floats are twice as dense. -/
structure Rounding where
  low : Nat
  value : Nat
  high : Nat
  closed : Bool

/-- The reals that round to the float `coefficient * 2 ^ exponent`. -/
def Rounding.of (coefficient : Nat) (exponent : Int) : Rounding where
  low := 4 * coefficient - if coefficient = Binary64.leadingBit ∧ exponent ≠ Binary64.minExponent then 1 else 2
  value := 4 * coefficient
  high := 4 * coefficient + 2
  closed := coefficient % 2 = 0

/-- One unit of `rounding` is `num / den` steps of a grid; this is the grid point next to the value that lies
among the reals of `rounding`, if there is one. Of two the nearer is taken, and the upper one at a tie. -/
def Rounding.gridPoint? (rounding : Rounding) (num den : Nat) : Option Nat :=
  let below := rounding.value * num / den
  let inside (n : Nat) : Bool :=
    if rounding.closed then rounding.low * num ≤ n * den && n * den ≤ rounding.high * num
    else rounding.low * num < n * den && n * den < rounding.high * num
  if inside (below + 1) && (!inside below || den ≤ 2 * (rounding.value * num % den)) then some (below + 1)
  else if inside below then some below
  else none

/-- Looks for a grid point on the grids `10 ^ place`, `10 ^ (place - 1)`, … -/
def search (rounding : Rounding) (exponent : Int) : Nat → Int → Decimal
  | 0, place => ⟨0, place⟩
  | steps + 1, place =>
    let (n, d) := Binary64.rescale 2 (2 - exponent) 1 1
    let (num, den) := Binary64.rescale 10 place n d
    match rounding.gridPoint? num den with
    | some digits => ⟨digits, place⟩
    | none => search rounding exponent steps (place - 1)

/-- The decimal with the fewest digits that rounds to `coefficient * 2 ^ exponent`, and of several the nearest:
the point of the coarsest grid that has one. All floats are below `10 ^ 309`, and the finest grid that is needed
has its step at `10 ^ (-324)`. -/
def shortest (coefficient : Nat) (exponent : Int) : Decimal :=
  search (.of coefficient exponent) exponent (309 + 324 + 1) 309

example : (shortest 0x1999999999999a (-56)).positional = ['0', '.', '1'] := by decide +kernel

example : shortest 0x10000000000000 (-52) = ⟨1, 0⟩ := by decide +kernel

example : shortest 1 (-1074) = ⟨5, -324⟩ := by decide +kernel

example : shortest 0x1fffffffffffff 971 = ⟨17976931348623157, 292⟩ := by decide +kernel

/-- The text of a float. -/
def ofFloat (x : Float) : String :=
  match Binary64.parts x with
  | .nan => "NaN"
  | .infinite negative => if negative then "-inf" else "inf"
  | .finite negative coefficient exponent =>
    let magnitude := if coefficient = 0 then ['0'] else (shortest coefficient exponent).positional
    String.ofList (if negative then '-' :: magnitude else magnitude)

/-! ## Reading -/

/-- The value of a row of decimal digits. -/
def natOfDigits (digits : List Char) : Nat :=
  digits.foldl (fun value digit => 10 * value + (digit.toNat - '0'.toNat)) 0

/-- Takes a sign off the front; it holds if there was a minus. -/
def signed : List Char → Bool × List Char
  | '-' :: cs => (true, cs)
  | '+' :: cs => (false, cs)
  | cs => (false, cs)

/-- The 64-bit integer of a numeral: a sign, which may be missing, and at least one digit. -/
def int? (cs : List Char) : Option Int64 :=
  let (negative, digits) := signed cs
  if digits.isEmpty || !digits.all Char.isDigit then none
  else Integer.narrow? (if negative then -natOfDigits digits else natOfDigits digits)

/-- The exponent at the end of a numeral: none at all, or a mark, a sign, which may be missing, and digits. -/
def exponent? : List Char → Option Int
  | [] => some 0
  | mark :: cs =>
    let (negative, digits) := signed cs
    if (mark = 'e' || mark = 'E') && !digits.isEmpty && digits.all Char.isDigit then
      some (if negative then -natOfDigits digits else natOfDigits digits)
    else none

/-- A decimal without a sign: digits, possibly with a point among or beside them, and possibly an exponent. -/
def unsigned? (cs : List Char) : Option Decimal :=
  let whole := cs.takeWhile Char.isDigit
  let (fraction, tail) :=
    match cs.dropWhile Char.isDigit with
    | '.' :: rest => (rest.takeWhile Char.isDigit, rest.dropWhile Char.isDigit)
    | rest => ([], rest)
  if whole.isEmpty && fraction.isEmpty then none
  else (exponent? tail).map fun e => ⟨natOfDigits (whole ++ fraction), e - fraction.length⟩

/-- The float nearest to a decimal. Far outside the range of the floats the answer needs no division. -/
def toFloat (negative : Bool) (decimal : Decimal) : Float :=
  let magnitude := (Nat.toDigits 10 decimal.digits).length + decimal.exponent
  if decimal.digits = 0 || magnitude < -400 then Binary64.ofMagnitude negative 0
  else if 400 < magnitude then Binary64.infinity negative
  else
    let (num, den) := Binary64.rescale 10 (-decimal.exponent) decimal.digits 1
    Binary64.ofRatio negative num den

/-- The float of a numeral: a decimal, an infinity or not a number, with a sign or without. The words for the
latter two may be in capitals. -/
def float? (cs : List Char) : Option Float :=
  let (negative, body) := signed cs
  match unsigned? body with
  | some decimal => some (toFloat negative decimal)
  | none =>
    let word := String.ofList (body.map Char.toLower)
    if word = "inf" || word = "infinity" then some (Binary64.infinity negative)
    else if word = "nan" then some Binary64.nan
    else none

end Decimal

end GradualScript
