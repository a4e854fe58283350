import Schematic.Text.Blank
import Schematic.Text.Numeral

/-!
# Coordinates

* `Coordinates.read?`: a pair `x, y` of integers in front of a text.
* `InRange`: the integers that fit 64 bits with sign; no others are read.
* `Coordinates.inRange_of_read?`: what is read is in range.
-/

namespace Schematic.Script

/-- The integers from `-2^63` to `2^63 - 1`. -/
def InRange (i : Int) : Prop := -9223372036854775808 ≤ i ∧ i ≤ 9223372036854775807

instance (i : Int) : Decidable (InRange i) := inferInstanceAs (Decidable (_ ∧ _))

/-- A position, with the text that follows it. -/
structure Coordinates where
  x : Int
  y : Int
  rest : List Char
  deriving DecidableEq

/-- Drops a comma in front. -/
def comma? : List Char → Option (List Char)
  | ',' :: r => some r
  | _ => none

/-- Reads two integers around a comma; blanks may stand before each of the three. -/
def Coordinates.read? (tail : List Char) : Option Coordinates := do
  let (x, r) ← Text.integer? (Text.skipBlanks tail)
  let r ← comma? (Text.skipBlanks r)
  let (y, rest) ← Text.integer? (Text.skipBlanks r)
  if InRange x ∧ InRange y then some ⟨x, y, rest⟩ else none

/-- What is read is in range. -/
theorem Coordinates.inRange_of_read? {tail : List Char} {c : Coordinates}
    (h : Coordinates.read? tail = some c) : InRange c.x ∧ InRange c.y := by
  simp only [Coordinates.read?, Option.bind_eq_bind, Option.bind_eq_some_iff] at h
  obtain ⟨⟨x, r⟩, -, r', -, ⟨y, rest⟩, -, h⟩ := h
  split at h
  · cases h; assumption
  · cases h

end Schematic.Script
