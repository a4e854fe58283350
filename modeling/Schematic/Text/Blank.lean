/-!
# Blank characters

* `isBlank`: the characters with the Unicode property `White_Space`.
* `trim`: a text without the blanks at its two ends.
* `head?_skipBlanks`: what is left after the blanks in front starts with no blank.
-/

namespace Schematic.Text

/-- The closed ranges of code points that have the property `White_Space`. -/
def blankRanges : List (Nat × Nat) :=
  [(0x09, 0x0D), (0x20, 0x20), (0x85, 0x85), (0xA0, 0xA0), (0x1680, 0x1680), (0x2000, 0x200A),
   (0x2028, 0x2029), (0x202F, 0x202F), (0x205F, 0x205F), (0x3000, 0x3000)]

/-- A blank is a character of one of the `blankRanges`. -/
def isBlank (c : Char) : Bool :=
  blankRanges.any fun r => r.1 ≤ c.toNat && c.toNat ≤ r.2

def skipBlanks (s : List Char) : List Char := s.dropWhile isBlank

def trim (s : List Char) : List Char := (skipBlanks (skipBlanks s).reverse).reverse

/-- What is left after the blanks in front starts with no blank. -/
theorem head?_skipBlanks (s : List Char) {c : Char} (h : (skipBlanks s).head? = some c) :
    isBlank c = false := by
  have := List.head?_dropWhile_not isBlank s
  rw [show (s.dropWhile isBlank).head? = some c from h] at this
  simpa using this

end Schematic.Text
