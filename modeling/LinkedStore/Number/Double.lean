import LinkedStore.Number.Word

/-!
# Doubles as words

A double is kept as its 64-bit word.  Equality of words tells the two zeros and all NaNs apart,
which is what sets and sorted lists of literals need; the order is the total order of the
interchange standard on those words.

## Main definitions

* `Double` : a 64-bit floating-point word.
* `Double.orderKey` : the integer that sorts words in the total order.
* `Double.magnitude` : a finite word as an integer multiple of a power of two.

## Main statements

* `Double.orderKey_inj` : distinct words have distinct keys, so the order is total.
-/

namespace LinkedStore

/-- A floating-point number of 64 bits, as its word. -/
structure Double where
  bits : UInt64
  deriving DecidableEq, Repr, Inhabited

namespace Double

/-- The word of a number. -/
def ofFloat (x : Float) : Double := ⟨x.toBits⟩

/-- Whether the sign bit is set. -/
def isNegative (x : Double) : Bool := decide (Word.signedLimit ≤ x.bits.toNat)

/-- The number of fractions of one exponent. -/
def fractions : Nat := 0x10000000000000

/-- The biased exponent. -/
def biasedExponent (x : Double) : Nat := x.bits.toNat / fractions % 2048

/-- The fraction below the leading bit. -/
def fraction (x : Double) : Nat := x.bits.toNat % fractions

def isNaN (x : Double) : Bool := x.biasedExponent == 2047 && x.fraction != 0

def isInfinite (x : Double) : Bool := x.biasedExponent == 2047 && x.fraction == 0

/-- A finite word, sign aside, as `m · 2 ^ q`. -/
def magnitude (x : Double) : Nat × Int :=
  if x.biasedExponent = 0 then (x.fraction, -1074)
  else (fractions + x.fraction, (x.biasedExponent : Int) - 1075)

/-- Words with the sign bit are sorted before all others, and among themselves in reverse. -/
def orderKey (x : Double) : Int :=
  if Word.signedLimit ≤ x.bits.toNat then (Word.signedLimit : Int) - 1 - x.bits.toNat
  else x.bits.toNat

theorem orderKey_inj {x y : Double} : x.orderKey = y.orderKey ↔ x = y := by
  constructor
  · intro h
    have hbits : x.bits.toNat = y.bits.toNat := by
      simp only [orderKey] at h
      split at h <;> split at h <;> omega
    cases x
    cases y
    exact congrArg Double.mk (UInt64.toNat.inj hbits)
  · rintro rfl
    rfl

end Double

end LinkedStore
