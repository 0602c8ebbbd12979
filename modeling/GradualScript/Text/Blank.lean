import GradualScript.Text.Ranges

/-!
# White space

* `Text.isBlank` : the characters with the Unicode property `White_Space`;
* `Text.trim` : a text without the white space at its two ends.
-/

set_option autoImplicit false

namespace GradualScript.Text

/-- The ranges of the Unicode property `White_Space`. -/
def blankRanges : List (Nat × Nat) :=
  [ (0x9, 0xd), (0x20, 0x20), (0x85, 0x85), (0xa0, 0xa0), (0x1680, 0x1680), (0x2000, 0x200a), (0x2028, 0x2029),
    (0x202f, 0x202f), (0x205f, 0x205f), (0x3000, 0x3000) ]

/-- The character is white space. -/
def isBlank (c : Char) : Bool :=
  inRanges c.toNat blankRanges

/-- The text without the white space at its start and at its end. -/
def trim (cs : List Char) : List Char :=
  ((cs.dropWhile isBlank).reverse.dropWhile isBlank).reverse

example : ascending blankRanges = true := by decide

end GradualScript.Text
