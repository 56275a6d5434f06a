import Mathlib.Data.List.Basic

/-!
# Bytes as ASCII characters

What the formats of HTTP have in common: the end of a line and the decimal digits.
-/

set_option autoImplicit false

namespace LocalPost.Core.Ascii

/-- A line end. -/
def crlf : List UInt8 := [13, 10]

/-- `DIGIT`. -/
def isDigit (x : UInt8) : Bool := 48 ≤ x ∧ x ≤ 57

/-- The character of a digit is one. -/
theorem isDigit_ofNat : ∀ d < 10, isDigit (UInt8.ofNat (48 + d)) = true := by
  decide

/-- A digit is between the characters of 0 and 9. -/
theorem isDigit_iff {x : UInt8} : isDigit x = true ↔ 48 ≤ x ∧ x ≤ 57 := decide_eq_true_iff

/-- Another character is no digit. -/
theorem ne_of_isDigit {x y : UInt8} (hx : isDigit x = true) (hy : isDigit y = false) : x ≠ y := by
  rintro rfl
  rw [hx] at hy
  cases hy

end LocalPost.Core.Ascii
