/-!
# Hexadecimal digits

Numbers in lower-case hexadecimal digits of a fixed width, and such digits read back in either
case.

## Main definitions

* `Text.hexDigits` : the lowest digits of a number.
* `Text.hexNumber?` : the number that digits stand for.
-/

namespace LinkedStore.Text

/-- The `width` lowest digits of a number, the highest first. -/
def hexDigits : Nat → Nat → List Char
  | 0, _ => []
  | width + 1, n => hexDigits width (n / 16) ++ [Nat.digitChar (n % 16)]

/-- The value of a digit. -/
def hexValue? (c : Char) : Option Nat :=
  if c.isDigit then some (c.toNat - '0'.toNat)
  else if 'a' ≤ c ∧ c ≤ 'f' then some (c.toNat - 'a'.toNat + 10)
  else if 'A' ≤ c ∧ c ≤ 'F' then some (c.toNat - 'A'.toNat + 10)
  else none

/-- The number that digits stand for. -/
def hexNumber? (digits : List Char) : Option Nat :=
  digits.foldlM (fun n c => (16 * n + ·) <$> hexValue? c) 0

end LinkedStore.Text
