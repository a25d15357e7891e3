import Domoticz.CLib.Bytes

/-!
# The bytes of text formats

White space and digits, as JSON and XML have them.

## Main definitions

* `isWhitespace`, `IsSpace` — white space.
* `isDigit`, `isHexDigit`, `IsDigits` — numbers.
-/

namespace Text

open CLib

/-- Blank, tab, line feed and carriage return. -/
def isWhitespace (b : UInt8) : Bool := b == 0x20 || b == 0x09 || b == 0x0A || b == 0x0D

/-- A text of white space. -/
def IsSpace (s : Bytes) : Prop := ∀ b ∈ s, isWhitespace b = true

/-- A decimal digit. -/
def isDigit (b : UInt8) : Bool := 0x30 ≤ b && b ≤ 0x39

/-- A hexadecimal digit. -/
def isHexDigit (b : UInt8) : Bool :=
  isDigit b || (0x41 ≤ b && b ≤ 0x46) || (0x61 ≤ b && b ≤ 0x66)

/-- At least one digit. -/
def IsDigits (s : Bytes) : Prop := s ≠ [] ∧ ∀ b ∈ s, isDigit b = true

theorem IsSpace.notMem {s : Bytes} (h : IsSpace s) {b : UInt8} (hb : isWhitespace b = false) :
    b ∉ s := by
  intro hmem
  rw [h b hmem] at hb
  cases hb

end Text
