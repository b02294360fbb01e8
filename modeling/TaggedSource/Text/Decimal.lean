/-
Decimal numbers as they are written in settings: ASCII digits, after an
optional plus sign, below the bound of a 64-bit word. The digits are read one
by one, and reading ends at the one with which the number outgrows the bound.
-/
import TaggedSource.Text

namespace TaggedSource.Text

/-- Whether a character is an ASCII digit. -/
def isDigit (c : Char) : Bool := '0' ≤ c && c ≤ '9'

/-- The number that a digit stands for. -/
def digitValue (c : Char) : Nat := c.toNat - '0'.toNat

/-- A number with one more digit behind it, if it still fits in 64 bits. -/
def pushDigit? (n : Nat) (c : Char) : Option Nat :=
  let next := 10 * n + digitValue c
  if isDigit c = true ∧ next < UInt64.size then some next else none

/-- The digits of a number, its sign taken off. -/
def unsigned : Text → Text
  | '+' :: digits => digits
  | digits => digits

/-- The number that a text spells, if it fits in 64 bits. -/
def number? (t : Text) : Option Nat :=
  let digits := unsigned t
  if digits.isEmpty then none else digits.foldlM pushDigit? 0

end TaggedSource.Text
