import LinkedStore.Number.Double

/-!
# The shortest decimal that reads back

A double stands for all reals that round to it.  Its shortest decimal is the one with the fewest
significant digits among those reals, and of several with that count the one nearest the double.
Two decimals may lie equally near; which one is taken then is for the caller to say.
All arithmetic is exact, on natural numbers.

## Main definitions

* `Decimal` : an integer times a power of ten.
* `Tie` : which of two decimals equally near is taken.
* `Double.shortest` : the shortest decimal of a finite double other than zero.
-/

namespace LinkedStore

/-- The number `digits · 10 ^ exponent`. -/
structure Decimal where
  digits : Nat
  exponent : Int
  deriving DecidableEq, Repr

/-- Which of two neighbouring decimals is taken when the value lies halfway between them: the
larger one, or the one whose last digit is even. -/
inductive Tie where
  | up
  | even
  deriving DecidableEq, Repr

/-- The decimal without zeros at its end. -/
def Decimal.stripZeros : Nat → Decimal → Decimal
  | 0, d => d
  | n + 1, d =>
      if d.digits % 10 = 0 ∧ d.digits ≠ 0 then stripZeros n ⟨d.digits / 10, d.exponent + 1⟩ else d

/-- A ratio of natural numbers. -/
structure Ratio where
  numer : Nat
  denom : Nat

namespace Ratio

/-- The number `n · b ^ e`. -/
def scaled (n b : Nat) (e : Int) : Ratio :=
  if 0 ≤ e then ⟨n * Nat.pow b e.toNat, 1⟩ else ⟨n, Nat.pow b (-e).toNat⟩

def le (x y : Ratio) : Bool := x.numer * y.denom ≤ y.numer * x.denom

def lt (x y : Ratio) : Bool := x.numer * y.denom < y.numer * x.denom

/-- The integer part of `x / 10 ^ e`. -/
def floorShift (x : Ratio) (e : Int) : Nat :=
  if 0 ≤ e then x.numer / (x.denom * Nat.pow 10 e.toNat)
  else x.numer * Nat.pow 10 (-e).toNat / x.denom

/-- The exponent of the leading decimal digit of a positive ratio. -/
def decade (x : Ratio) : Int :=
  if x.denom ≤ x.numer then ((Nat.toDigits 10 (x.numer / x.denom)).length : Int) - 1
  else
    let places := (Nat.toDigits 10 (x.denom / x.numer)).length
    if x.numer * Nat.pow 10 (places - 1) = x.denom then 1 - (places : Int) else -(places : Int)

end Ratio

namespace Double

/-- The reals that round to `m · 2 ^ q`, as two ends; the ends themselves round to it when `m`
is even.  Below the least normal fraction the numbers beneath lie twice as close. -/
structure Interval where
  low : Ratio
  high : Ratio
  closed : Bool

/-- The interval of a finite word. -/
def interval (x : Double) : Interval :=
  let (m, q) := x.magnitude
  let below := if m = fractions ∧ 1 < x.biasedExponent then 1 else 2
  { low := .scaled (4 * m - below) 2 (q - 2)
    high := .scaled (4 * m + 2) 2 (q - 2)
    closed := m % 2 = 0 }

/-- Whether a decimal reads back as the word. -/
def Interval.holds (i : Interval) (d : Decimal) : Bool :=
  let x := Ratio.scaled d.digits 10 d.exponent
  if i.closed then i.low.le x && x.le i.high else i.low.lt x && x.lt i.high

/-- Of the two neighbours of the value on the grid of multiples of `10 ^ e`, the nearer one that
reads back. -/
def onGrid (x : Double) (tie : Tie) (e : Int) : Option Decimal :=
  let (m, q) := x.magnitude
  let value := Ratio.scaled m 2 q
  let floor := value.floorShift e
  let lower : Decimal := ⟨floor, e⟩
  let upper : Decimal := ⟨floor + 1, e⟩
  let middle := Ratio.scaled (10 * floor + 5) 10 (e - 1)
  match x.interval.holds lower, x.interval.holds upper with
  | true, true =>
      let evenTie := tie = .even ∧ floor % 2 = 0 ∧ value.le middle
      some (if value.lt middle ∨ evenTie then lower else upper)
  | true, false => some lower
  | false, true => some upper
  | false, false => none

/-- The first hit on the grids of 1, 2, … significant digits. -/
def firstOnGrids (x : Double) (tie : Tie) (decade : Int) : Nat → Decimal
  | 0 =>
      let (m, q) := x.magnitude
      ⟨(Ratio.scaled m 2 q).floorShift (decade - 16), decade - 16⟩
  | left + 1 =>
      match x.onGrid tie (decade - (16 - left)) with
      | some d => d
      | none => firstOnGrids x tie decade left

/-- The shortest decimal of a finite word; seventeen digits always suffice. -/
def shortest (x : Double) (tie : Tie) : Decimal :=
  let (m, q) := x.magnitude
  if m = 0 then ⟨0, 0⟩
  else Decimal.stripZeros 20 (x.firstOnGrids tie (Ratio.scaled m 2 q).decade 17)

end Double

end LinkedStore
