import LinkedStore.Number.Shortest

/-!
# Writing decimals

A decimal is written with its point in place, or with one digit before the point and an exponent.
Lexical forms of literals use the first layout at every size; numbers of a JSON text use it where
the point is near the digits.

## Main definitions

* `Decimal.positional`, `Decimal.scientific` : the two layouts.
* `Double.lexical` : the lexical form of a double literal.
* `Double.jsonText` : a finite double in a JSON text.
-/

namespace LinkedStore

namespace Decimal

/-- The digits with the point in place; a whole number is followed by `fill`. -/
def positional (d : Decimal) (fill : String) : String :=
  let digits := Nat.toDigits 10 d.digits
  if 0 ≤ d.exponent then
    String.ofList (digits ++ List.replicate d.exponent.toNat '0') ++ fill
  else
    let places := (-d.exponent).toNat
    let padded := List.replicate (places + 1 - digits.length) '0' ++ digits
    String.ofList (padded.take (padded.length - places)) ++ "." ++
      String.ofList (padded.drop (padded.length - places))

/-- How many digits stand before the point. -/
def pointPlace (d : Decimal) : Int := (Nat.toDigits 10 d.digits).length + d.exponent

/-- An exponent, always with its sign. -/
def exponentText (e : Int) : String := if e < 0 then toString e else "+" ++ toString e

/-- One digit, the point and the other digits if there are any, and an exponent. -/
def scientific (d : Decimal) : String :=
  let mantissa :=
    match Nat.toDigits 10 d.digits with
    | [] => ""
    | [digit] => String.ofList [digit]
    | digit :: digits => String.ofList (digit :: '.' :: digits)
  mantissa ++ "e" ++ exponentText (d.pointPlace - 1)

end Decimal

namespace Double

/-- The sign mark of a word. -/
def signMark (x : Double) : String := if x.isNegative then "-" else ""

/-- The lexical form of a double literal: the fewest digits that read back, the larger ones on a
tie, without an exponent, and without a point for whole numbers. -/
def lexical (x : Double) : String :=
  if x.isNaN then "NaN"
  else x.signMark ++ if x.isInfinite then "INF" else (x.shortest .up).positional ""

/-- A finite double in a JSON text: the fewest digits that read back, the even ones on a tie;
positional with at most four zeros behind the point and sixteen digits before it, whole numbers
ending in `.0`. -/
def jsonText (x : Double) : String :=
  let d := x.shortest .even
  let body :=
    if -5 < d.pointPlace ∧ d.pointPlace ≤ 16 then d.positional ".0" else d.scientific
  x.signMark ++ body

end Double

end LinkedStore
