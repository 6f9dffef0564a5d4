import LinkedStore.Number.Shortest
import Mathlib.Algebra.Order.Field.Power
import Mathlib.Algebra.Order.Floor.Semifield
import Mathlib.Data.Rat.Floor
import Mathlib.Tactic.FieldSimp
import Mathlib.Tactic.Linarith
import Mathlib.Tactic.NormNum
import Mathlib.Tactic.Positivity
import Mathlib.Tactic.Ring

/-!
# Shortest decimals read back

The numbers that round to a double lie between two ends.  The intervals of two doubles that differ
by more than their signs have no number in common: they meet in an end at most, and an end belongs
to the double whose last bit is zero, which is one of two neighbours.

The shortest decimal of a double lies in its interval.  On the grid of seventeen significant digits
the points are closer to each other than the two ends are, so that one of the neighbours of the
double on that grid is between them, and the search ends there at the latest.

## Main definitions

* `Ratio.value`, `Decimal.value` : the number of a ratio and of a decimal.
* `Double.Rounds` : a number rounds to a double.

## Main statements

* `Double.magnitude_eq_of_rounds` : a number rounds to one double at most, signs aside.
* `Double.rounds_shortest` : the shortest decimal rounds to its double.
-/

namespace LinkedStore

/-! ### Ratios -/

namespace Ratio

variable {x y : Ratio}

/-- The number of a ratio. -/
def value (x : Ratio) : ℚ := x.numer / x.denom

theorem denom_scaled_pos (n : Nat) {b : Nat} (hb : 0 < b) (e : Int) : 0 < (scaled n b e).denom := by
  rw [scaled]
  split
  · exact Nat.one_pos
  · exact Nat.pow_pos hb

theorem value_scaled (n b : Nat) (e : Int) : (scaled n b e).value = n * (b : ℚ) ^ e := by
  rw [scaled]
  split
  case isTrue h =>
    obtain ⟨k, rfl⟩ := Int.eq_ofNat_of_zero_le h
    simp [value]
  case isFalse h =>
    obtain ⟨k, hk⟩ := Int.eq_ofNat_of_zero_le (show 0 ≤ -e by omega)
    obtain rfl : e = -k := by omega
    simp [value, div_eq_mul_inv]

theorem le_iff (hx : 0 < x.denom) (hy : 0 < y.denom) : x.le y = true ↔ x.value ≤ y.value := by
  rw [le, decide_eq_true_eq, value, value,
    div_le_div_iff₀ (by exact_mod_cast hx) (by exact_mod_cast hy)]
  exact_mod_cast Iff.rfl

theorem lt_iff (hx : 0 < x.denom) (hy : 0 < y.denom) : x.lt y = true ↔ x.value < y.value := by
  rw [lt, decide_eq_true_eq, value, value,
    div_lt_div_iff₀ (by exact_mod_cast hx) (by exact_mod_cast hy)]
  exact_mod_cast Iff.rfl

theorem floorShift_eq (x : Ratio) (e : Int) : x.floorShift e = ⌊x.value / 10 ^ e⌋₊ := by
  rw [floorShift, value]
  split
  case isTrue h =>
    obtain ⟨k, rfl⟩ := Int.eq_ofNat_of_zero_le h
    rw [← Nat.floor_div_eq_div (K := ℚ)]
    simp [div_div]
  case isFalse h =>
    obtain ⟨k, hk⟩ := Int.eq_ofNat_of_zero_le (show 0 ≤ -e by omega)
    obtain rfl : e = -k := by omega
    rw [← Nat.floor_div_eq_div (K := ℚ)]
    simp [div_eq_mul_inv, mul_right_comm]

/-- A number is no less than the unit of its leading digit. -/
theorem pow_length_toDigits_le {n : Nat} (hn : 0 < n) :
    10 ^ ((Nat.toDigits 10 n).length - 1) ≤ n := by
  by_cases hlength : (Nat.toDigits 10 n).length - 1 = 0
  · rw [hlength]
    exact hn
  · refine Nat.le_of_not_lt fun hlt => ?_
    have := (Nat.length_toDigits_le_iff (by decide) (Nat.pos_of_ne_zero hlength)).2 hlt
    omega

/-- A positive ratio is no less than the unit of its leading digit. -/
theorem pow_decade_le (hnumer : 0 < x.numer) (hdenom : 0 < x.denom) :
    (10 : ℚ) ^ x.decade ≤ x.value := by
  have hdenomQ : (0 : ℚ) < x.denom := by exact_mod_cast hdenom
  rw [decade, value, le_div_iff₀ hdenomQ]
  split
  case isTrue h =>
    have hlow := pow_length_toDigits_le (Nat.div_pos h hdenom)
    generalize hplaces : (Nat.toDigits 10 (x.numer / x.denom)).length = places at hlow ⊢
    have hpos : 0 < places := hplaces ▸ Nat.length_toDigits_pos
    obtain ⟨k, rfl⟩ : ∃ k, places = k + 1 := ⟨places - 1, by omega⟩
    rw [Nat.cast_succ, add_sub_cancel_right, zpow_natCast]
    exact_mod_cast (Nat.le_div_iff_mul_le hdenom).1 hlow
  case isFalse h =>
    generalize hplaces : (Nat.toDigits 10 (x.denom / x.numer)).length = places
    have hpos : 0 < places := hplaces ▸ Nat.length_toDigits_pos
    obtain ⟨k, rfl⟩ : ∃ k, places = k + 1 := ⟨places - 1, by omega⟩
    simp only [Nat.add_sub_cancel, Nat.pow_eq]
    split
    case isTrue hexact =>
      have hexponent : 1 - ((k + 1 : Nat) : Int) = -(k : Int) := by omega
      rw [hexponent, zpow_neg, zpow_natCast, inv_mul_le_iff₀ (by positivity), ← hexact, mul_comm]
      push_cast
      exact le_rfl
    case isFalse =>
      have hlt : x.denom / x.numer < 10 ^ (k + 1) :=
        (Nat.length_toDigits_le_iff (by decide) hpos).1 hplaces.le
      rw [zpow_neg, zpow_natCast, inv_mul_le_iff₀ (by positivity)]
      exact_mod_cast ((Nat.div_lt_iff_lt_mul hnumer).1 hlt).le

end Ratio

/-! ### Decimals -/

namespace Decimal

/-- The number of a decimal. -/
def value (d : Decimal) : ℚ := d.digits * 10 ^ d.exponent

theorem value_stripZeros (n : Nat) (d : Decimal) : (stripZeros n d).value = d.value := by
  induction n generalizing d with
  | zero => rfl
  | succ n ih =>
      rw [stripZeros]
      split
      case isTrue h =>
        have hdigits : (d.digits : ℚ) = (d.digits / 10 : Nat) * 10 := by
          exact_mod_cast (Nat.div_mul_cancel (Nat.dvd_of_mod_eq_zero h.1)).symm
        rw [ih, value, value, hdigits, zpow_add₀ (by norm_num), zpow_one]
        ring
      case isFalse => rfl

end Decimal

/-! ### Intervals -/

namespace Double

variable {x y : Double} {z : ℚ}

/-- The integer of a finite word, sign aside. -/
def significand (x : Double) : Nat := x.magnitude.1

/-- The power of two that the integer of a finite word is multiplied by. -/
def exponent (x : Double) : Int := x.magnitude.2

/-- A quarter of the last bit of a finite word. -/
def quarter (x : Double) : ℚ := 2 ^ (x.exponent - 2)

/-- How far the lower end of the interval lies below the number, in quarters of the last bit. -/
def gap (x : Double) : Nat := if x.significand = fractions ∧ 1 < x.biasedExponent then 1 else 2

/-- The lower end of the interval, in quarters of the last bit. -/
def low (x : Double) : Nat := 4 * x.significand - x.gap

/-- The upper end of the interval, in quarters of the last bit. -/
def high (x : Double) : Nat := 4 * x.significand + 2

/-- A number rounds to a word: it lies in the interval of the word, and is no end of it if the last
bit of the word is one. -/
structure Rounds (x : Double) (z : ℚ) : Prop where
  low_le : x.low * x.quarter ≤ z
  le_high : z ≤ x.high * x.quarter
  even : z = x.low * x.quarter ∨ z = x.high * x.quarter → x.significand % 2 = 0

theorem quarter_pos (x : Double) : 0 < x.quarter := zpow_pos (by norm_num) _

theorem value_low (x : Double) : x.interval.low.value = x.low * x.quarter :=
  Ratio.value_scaled _ _ _

theorem value_high (x : Double) : x.interval.high.value = x.high * x.quarter :=
  Ratio.value_scaled _ _ _

/-- The decimals that an interval holds are those that round to the word. -/
theorem holds_iff {d : Decimal} : x.interval.holds d = true ↔ x.Rounds d.value := by
  have hlow : 0 < x.interval.low.denom := Ratio.denom_scaled_pos _ (by decide) _
  have hhigh : 0 < x.interval.high.denom := Ratio.denom_scaled_pos _ (by decide) _
  have hd : 0 < (Ratio.scaled d.digits 10 d.exponent).denom :=
    Ratio.denom_scaled_pos _ (by decide) _
  have hclosed : x.interval.closed = decide (x.significand % 2 = 0) := rfl
  have hvalue : (Ratio.scaled d.digits 10 d.exponent).value = d.value := Ratio.value_scaled _ _ _
  rw [Interval.holds, hclosed]
  by_cases heven : x.significand % 2 = 0
  · simp only [heven, decide_true, if_true, Bool.and_eq_true, Ratio.le_iff hlow hd,
      Ratio.le_iff hd hhigh, hvalue, value_low, value_high]
    exact ⟨fun h => ⟨h.1, h.2, fun _ => heven⟩, fun h => ⟨h.low_le, h.le_high⟩⟩
  · simp only [heven, decide_false, Bool.false_eq_true, if_false, Bool.and_eq_true,
      Ratio.lt_iff hlow hd, Ratio.lt_iff hd hhigh, hvalue, value_low, value_high]
    constructor
    · exact fun h => ⟨h.1.le, h.2.le, fun hend => hend.elim (fun hend => absurd hend h.1.ne')
        fun hend => absurd hend h.2.ne⟩
    · exact fun h => ⟨h.low_le.lt_of_ne fun hend => heven (h.even (.inl hend.symm)),
        h.le_high.lt_of_ne fun hend => heven (h.even (.inr hend))⟩

/-! ### Intervals do not overlap -/

theorem significand_lt (x : Double) : x.significand < 2 * fractions := by
  have hfraction : x.fraction < fractions := Nat.mod_lt _ (by decide)
  rw [significand, magnitude]
  split <;> simp only <;> omega

theorem le_exponent (x : Double) : -1074 ≤ x.exponent := by
  rw [exponent, magnitude]
  split <;> simp only <;> omega

/-- Above the least exponent the leading bit is set. -/
theorem fractions_le_significand (h : -1074 < x.exponent) : fractions ≤ x.significand := by
  rw [exponent, magnitude] at h
  rw [significand, magnitude]
  split at h
  case isTrue => exact absurd h (Int.lt_irrefl _)
  case isFalse hnormal =>
    rw [if_neg hnormal]
    exact Nat.le_add_right _ _

theorem gap_eq (x : Double) :
    x.gap = if x.significand = fractions ∧ -1074 < x.exponent then 1 else 2 := by
  have hiff : x.significand = fractions ∧ 1 < x.biasedExponent ↔
      x.significand = fractions ∧ -1074 < x.exponent := by
    rw [exponent, magnitude]
    split <;> simp only <;> omega
  simp only [gap, hiff]

/-- One word precedes another: its number is less, signs aside. -/
def Precedes (x y : Double) : Prop :=
  x.exponent < y.exponent ∨ x.exponent = y.exponent ∧ x.significand < y.significand

/-- The interval of one word ends where that of another begins, at the latest; and the end that they
may have in common belongs to one of them alone. -/
def EndsBefore (x y : Double) : Prop :=
  x.high * x.quarter ≤ y.low * y.quarter ∧
    (x.high * x.quarter = y.low * y.quarter → x.significand % 2 = 1 ∨ y.significand % 2 = 1)

theorem quarter_of_exponent {k : Nat} (h : y.exponent = x.exponent + 1 + k) :
    y.quarter = (2 * 2 ^ k : Nat) * x.quarter := by
  rw [quarter, quarter, show y.exponent - 2 = (x.exponent - 2) + (k + 1 : Nat) by omega,
    zpow_add₀ (by norm_num), zpow_natCast, pow_succ]
  push_cast
  ring

/-- A greater exponent leaves a bit of room, since the leading bit is set. -/
theorem endsBefore_of_exponent_lt (hexponent : x.exponent < y.exponent) : x.EndsBefore y := by
  have hx := x.significand_lt
  have hgap := y.gap_eq
  have habove : -1074 < y.exponent := x.le_exponent.trans_lt hexponent
  have hleast := fractions_le_significand habove
  obtain ⟨k, hk⟩ := Int.eq_ofNat_of_zero_le (show 0 ≤ y.exponent - x.exponent - 1 by omega)
  have hlow : 4 * fractions - 1 ≤ y.low := by
    rw [low]
    split at hgap <;> omega
  have hscale : 2 * y.low ≤ y.low * (2 * 2 ^ k) := by
    have := Nat.mul_le_mul_left y.low (Nat.mul_le_mul_left 2 (Nat.one_le_two_pow (n := k)))
    omega
  have hhigh : x.high ≤ 2 * (4 * fractions - 1) := by
    rw [high]
    omega
  rw [EndsBefore, quarter_of_exponent (show y.exponent = x.exponent + 1 + k by omega), ← mul_assoc,
    ← Nat.cast_mul]
  constructor
  · exact mul_le_mul_of_nonneg_right (by exact_mod_cast (by omega)) x.quarter_pos.le
  · intro heq
    have heq : x.high = y.low * (2 * 2 ^ k) := by
      exact_mod_cast mul_right_cancel₀ x.quarter_pos.ne' heq
    rw [high, fractions] at *
    omega

theorem endsBefore_of_significand_lt (hexponent : x.exponent = y.exponent)
    (hsignificand : x.significand < y.significand) : x.EndsBefore y := by
  have hgap := y.gap_eq
  have hquarter : y.quarter = x.quarter := by rw [quarter, quarter, hexponent]
  rw [EndsBefore, hquarter]
  constructor
  · refine mul_le_mul_of_nonneg_right (Nat.cast_le.2 ?_) x.quarter_pos.le
    rw [high, low]
    split at hgap <;> omega
  · intro heq
    have heq : x.high = y.low := by exact_mod_cast mul_right_cancel₀ x.quarter_pos.ne' heq
    rw [high, low] at heq
    split at hgap <;> omega

theorem Precedes.endsBefore (h : x.Precedes y) : x.EndsBefore y :=
  h.elim endsBefore_of_exponent_lt fun h => endsBefore_of_significand_lt h.1 h.2

theorem Precedes.not_rounds (h : x.Precedes y) (hx : x.Rounds z) : ¬y.Rounds z := by
  intro hy
  obtain ⟨hle, hparity⟩ := h.endsBefore
  have hhigh : z = x.high * x.quarter := le_antisymm hx.le_high (hle.trans hy.low_le)
  have hlow : z = y.low * y.quarter := le_antisymm (hx.le_high.trans hle) hy.low_le
  have hxeven := hx.even (.inr hhigh)
  have hyeven := hy.even (.inl hlow)
  have := hparity (hhigh.symm.trans hlow)
  omega

/-- **A number rounds to one double at most**, signs aside. -/
theorem magnitude_eq_of_rounds (hx : x.Rounds z) (hy : y.Rounds z) : x.magnitude = y.magnitude := by
  have hxy : ¬x.Precedes y := fun h => h.not_rounds hx hy
  have hyx : ¬y.Precedes x := fun h => h.not_rounds hy hx
  simp only [Precedes, not_or, not_and, Int.not_lt, Nat.not_lt] at hxy hyx
  have hexponent : x.exponent = y.exponent := by omega
  exact Prod.ext (Nat.le_antisymm (hyx.2 hexponent.symm) (hxy.2 hexponent)) hexponent

/-! ### The search for the shortest decimal -/

/-- The number of a finite word, sign aside. -/
theorem value_magnitude (x : Double) :
    (Ratio.scaled x.magnitude.1 2 x.magnitude.2).value = 4 * x.significand * x.quarter := by
  rw [Ratio.value_scaled, quarter, ← exponent, ← significand, zpow_sub₀ (by norm_num)]
  norm_num
  ring

/-- What the search takes from a grid rounds to the word. -/
theorem rounds_of_onGrid {tie : Tie} {e : Int} {d : Decimal} (h : x.onGrid tie e = some d) :
    x.Rounds d.value := by
  rw [onGrid] at h
  refine holds_iff.1 ?_
  simp only at h
  split at h
  case h_1 hlower hupper =>
    obtain rfl := Option.some.inj h
    split
    · exact hlower
    · exact hupper
  case h_2 hlower hupper => exact Option.some.inj h ▸ hlower
  case h_3 hlower hupper => exact Option.some.inj h ▸ hupper
  case h_4 => cases h

theorem rounds_of_between (hlow : x.low * x.quarter < z) (hhigh : z < x.high * x.quarter) :
    x.Rounds z :=
  ⟨hlow.le, hhigh.le, fun hend => hend.elim (fun h => absurd h hlow.ne') fun h => absurd h hhigh.ne⟩

theorem gap_le_two (x : Double) : x.gap ≤ 2 := by
  rw [gap]
  split <;> omega

theorem cast_low (hpos : 0 < x.significand) : (x.low : ℚ) = 4 * x.significand - x.gap := by
  have hgap := x.gap_le_two
  rw [low, Nat.cast_sub (by omega)]
  push_cast
  ring

theorem cast_high (x : Double) : (x.high : ℚ) = 4 * x.significand + 2 := by
  rw [high]
  push_cast
  ring

/-- A grid whose points are closer to each other than the ends of the interval has a neighbour of
the word between the ends. -/
theorem onGrid_ne_none {tie : Tie} {e : Int} (hpos : 0 < x.significand)
    (hfine : (10 : ℚ) ^ e < (2 + x.gap : Nat) * x.quarter) : x.onGrid tie e ≠ none := by
  intro hnone
  generalize hfloor : (Ratio.scaled x.magnitude.1 2 x.magnitude.2).floorShift e = floor
  have hmiss (n : Nat) (hn : n = floor ∨ n = floor + 1) : ¬x.Rounds (n * 10 ^ e) := by
    intro hrounds
    have hholds : x.interval.holds ⟨n, e⟩ = true := holds_iff.2 hrounds
    simp only [onGrid, hfloor] at hnone
    split at hnone
    case h_4 hlower hupper => rcases hn with rfl | rfl <;> simp_all
    all_goals cases hnone
  have hunit : (0 : ℚ) < 10 ^ e := zpow_pos (by norm_num) _
  have hquarter := x.quarter_pos
  rw [Ratio.floorShift_eq, value_magnitude, Nat.floor_eq_iff (by positivity),
    le_div_iff₀ hunit, div_lt_iff₀ hunit] at hfloor
  -- The neighbours that are missed lie beyond the ends, the interval between them.
  have hlower : floor * (10 : ℚ) ^ e ≤ x.low * x.quarter := by
    refine le_of_not_gt fun hlt => hmiss floor (.inl rfl) (rounds_of_between hlt ?_)
    rw [cast_high]
    linarith [hfloor.1]
  have hupper : x.high * x.quarter ≤ (floor + 1 : Nat) * (10 : ℚ) ^ e := by
    refine le_of_not_gt fun hlt => hmiss (floor + 1) (.inr rfl) (rounds_of_between ?_ hlt)
    have hgap : (0 : ℚ) ≤ x.gap * x.quarter := by positivity
    rw [cast_low hpos]
    push_cast
    linarith [hfloor.2]
  rw [cast_low hpos] at hlower
  rw [cast_high] at hupper
  push_cast at hupper hfine
  linarith

/-- Seventeen significant digits are a grid that is close enough. -/
theorem seventeen_digits_fine (hpos : 0 < x.significand) :
    (10 : ℚ) ^ ((Ratio.scaled x.magnitude.1 2 x.magnitude.2).decade - 16) <
      (2 + x.gap : Nat) * x.quarter := by
  have hdecade : (10 : ℚ) ^ (Ratio.scaled x.magnitude.1 2 x.magnitude.2).decade ≤
      4 * x.significand * x.quarter := by
    rw [← value_magnitude]
    refine Ratio.pow_decade_le ?_ (Ratio.denom_scaled_pos _ (by decide) _)
    rw [Ratio.scaled]
    split
    · exact Nat.mul_pos hpos (Nat.pow_pos (by decide))
    · exact hpos
  have hsignificand : 4 * x.significand < (2 + x.gap) * 10 ^ 16 := by
    have := x.significand_lt
    rw [fractions] at this
    rw [gap, fractions]
    split <;> omega
  rw [zpow_sub₀ (by norm_num), div_lt_iff₀ (by positivity)]
  calc (10 : ℚ) ^ (Ratio.scaled x.magnitude.1 2 x.magnitude.2).decade
      ≤ (4 * x.significand : Nat) * x.quarter := by exact_mod_cast hdecade
    _ < ((2 + x.gap) * 10 ^ 16 : Nat) * x.quarter :=
        mul_lt_mul_of_pos_right (by exact_mod_cast hsignificand) x.quarter_pos
    _ = (2 + x.gap : Nat) * x.quarter * 10 ^ (16 : Int) := by
        push_cast
        ring

/-- The search ends with a decimal that rounds to the word, if the last of its grids is close
enough. -/
theorem rounds_firstOnGrids {tie : Tie} {decade : Int}
    (hlast : x.onGrid tie (decade - 16) ≠ none) (left : Nat) :
    x.Rounds (x.firstOnGrids tie decade (left + 1)).value := by
  induction left with
  | zero =>
      rw [firstOnGrids]
      split
      case h_1 d hd => exact rounds_of_onGrid hd
      case h_2 hnone => exact absurd hnone (by simpa using hlast)
  | succ left ih =>
      rw [firstOnGrids]
      split
      case h_1 d hd => exact rounds_of_onGrid hd
      case h_2 => exact ih

/-- **The shortest decimal rounds to its double**, whichever way a tie goes. -/
theorem rounds_shortest (x : Double) (tie : Tie) : x.Rounds (x.shortest tie).value := by
  rw [shortest]
  simp only
  split
  case isTrue hzero =>
    have hzero : x.significand = 0 := hzero
    refine ⟨?_, ?_, fun _ => by rw [hzero]⟩
    · simp [low, hzero, Decimal.value]
    · have := x.quarter_pos
      simp only [Decimal.value]
      norm_num
      positivity
  case isFalse hzero =>
    rw [Decimal.value_stripZeros]
    have hpos : 0 < x.significand := Nat.pos_of_ne_zero hzero
    exact rounds_firstOnGrids (onGrid_ne_none hpos (seventeen_digits_fine hpos)) 16

end Double

end LinkedStore
