import LinkedStore.Number.Layout
import LinkedStore.Proofs.Number.Shortest
import LinkedStore.Proofs.Rdf.Order
import LinkedStore.Text.Cut
import Mathlib.Tactic.FieldSimp

/-!
# The lexical form of a double

A decimal that is written out reads back as its number, and the shortest decimal of a double rounds
to that double alone.  The lexical form of a double therefore tells its word, except that all words
that stand for no number share one form.

## Main definitions

* `Decimal.read` : the number that a text of digits with a point spells.

## Main statements

* `Decimal.read_positional` : a decimal that is written out reads back as its number.
* `Double.lexical_inj` : which words have the same lexical form.
-/

namespace LinkedStore

/-! ### Written decimals -/

namespace Decimal

/-- The number that a text of digits with a point spells. -/
def read (text : List Char) : ℚ :=
  match Text.cutFirst '.' text with
  | none => Nat.ofDigitChars 10 text 0
  | some (whole, part) => Nat.ofDigitChars 10 (whole ++ part) 0 / 10 ^ part.length

theorem isDigit_of_mem_replicate {n : Nat} {c : Char} (h : c ∈ List.replicate n '0') :
    c.isDigit = true := by
  rw [List.eq_of_mem_replicate h]
  decide

theorem point_notMem_of_isDigit {text : List Char} (h : ∀ c ∈ text, c.isDigit = true) :
    '.' ∉ text := fun hmem => absurd (h '.' hmem) (by decide)

/-- The digits of a number, with zeros in front of them. -/
def padded (n places : Nat) : List Char :=
  List.replicate (places + 1 - (Nat.toDigits 10 n).length) '0' ++ Nat.toDigits 10 n

theorem isDigit_of_mem_padded {n places : Nat} {c : Char} (h : c ∈ padded n places) :
    c.isDigit = true :=
  (List.mem_append.1 h).elim isDigit_of_mem_replicate
    (Nat.isDigit_of_mem_toDigits (by decide) (by decide))

theorem lt_length_padded (n places : Nat) : places < (padded n places).length := by
  rw [padded, List.length_append, List.length_replicate]
  omega

theorem ofDigitChars_padded (n places : Nat) : Nat.ofDigitChars 10 (padded n places) 0 = n := by
  rw [padded, Nat.ofDigitChars_append, Nat.ofDigitChars_replicate_zero, Nat.mul_zero,
    Nat.ofDigitChars_ten_toDigits]

/-- How a decimal is written: its digits and zeros, or a point between its digits. -/
theorem toList_positional (d : Decimal) : (d.positional "").toList =
    if 0 ≤ d.exponent then Nat.toDigits 10 d.digits ++ List.replicate d.exponent.toNat '0'
    else
      (padded d.digits (-d.exponent).toNat).take
          ((padded d.digits (-d.exponent).toNat).length - (-d.exponent).toNat) ++
        '.' :: (padded d.digits (-d.exponent).toNat).drop
          ((padded d.digits (-d.exponent).toNat).length - (-d.exponent).toNat) := by
  rw [positional]
  split
  · simp
  · simp [padded]

/-- A decimal that is written out begins with a digit. -/
theorem exists_positional_eq_cons (d : Decimal) :
    ∃ c cs, (d.positional "").toList = c :: cs ∧ c.isDigit = true := by
  rw [toList_positional]
  split
  case isTrue =>
    obtain ⟨c, cs, hdigits⟩ := List.exists_cons_of_ne_nil
      (List.ne_nil_of_length_pos (Nat.length_toDigits_pos (b := 10) (n := d.digits)))
    exact ⟨c, _, by rw [hdigits]; rfl,
      Nat.isDigit_of_mem_toDigits (by decide) (by decide) (hdigits ▸ List.mem_cons_self)⟩
  case isFalse =>
    generalize (-d.exponent).toNat = places
    have hlong := lt_length_padded d.digits places
    obtain ⟨c, cs, hpadded⟩ := List.exists_cons_of_length_pos (Nat.zero_lt_of_lt hlong)
    obtain ⟨k, hk⟩ := Nat.exists_eq_add_of_lt hlong
    rw [hk, show places + k + 1 - places = k + 1 by omega, hpadded]
    exact ⟨c, _, rfl, isDigit_of_mem_padded (hpadded ▸ List.mem_cons_self)⟩

/-- **A decimal that is written out reads back as its number.** -/
theorem read_positional (d : Decimal) : read (d.positional "").toList = d.value := by
  rw [toList_positional, value]
  split
  case isTrue hexponent =>
    obtain ⟨k, hk⟩ := Int.eq_ofNat_of_zero_le hexponent
    have hwhole : '.' ∉ Nat.toDigits 10 d.digits ++ List.replicate d.exponent.toNat '0' :=
      point_notMem_of_isDigit fun c hc => (List.mem_append.1 hc).elim
        (Nat.isDigit_of_mem_toDigits (by decide) (by decide)) isDigit_of_mem_replicate
    rw [read, Text.cutFirst_eq_none_iff.2 hwhole]
    simp only [Nat.ofDigitChars_append, Nat.ofDigitChars_replicate_zero,
      Nat.ofDigitChars_ten_toDigits, hk, Int.toNat_natCast, zpow_natCast]
    push_cast
    ring
  case isFalse hexponent =>
    obtain ⟨k, hk⟩ := Int.eq_ofNat_of_zero_le (show 0 ≤ -d.exponent by omega)
    obtain hk : d.exponent = -k := by omega
    have hlong := lt_length_padded d.digits k
    rw [hk, neg_neg, Int.toNat_natCast, read, Text.cutFirst_eq_some_iff.2 ⟨rfl,
      fun hmem => point_notMem_of_isDigit (fun c => isDigit_of_mem_padded)
        (List.mem_of_mem_take hmem)⟩]
    simp only [List.take_append_drop, List.length_drop, ofDigitChars_padded]
    rw [show (padded d.digits k).length - ((padded d.digits k).length - k) = k by omega,
      zpow_neg, zpow_natCast, div_eq_mul_inv]

end Decimal

/-! ### Lexical forms -/

namespace Double

variable {x y : Double}

theorem eq_of_unsigned_eq (hsign : x.isNegative = y.isNegative) (h : x.unsigned = y.unsigned) :
    x = y := by
  rw [← orderKey_inj, orderKey_eq, orderKey_eq, hsign, h]

theorem unsigned_eq_of_isInfinite (hx : x.isInfinite = true) : x.unsigned = 2047 * fractions := by
  rw [isInfinite, Bool.and_eq_true, beq_iff_eq, beq_iff_eq] at hx
  rw [unsigned_eq, hx.1, hx.2, Nat.add_zero]

/-- Two words with the same integer and the same power of two differ in their signs alone. -/
theorem unsigned_eq_of_magnitude_eq (h : x.magnitude = y.magnitude) : x.unsigned = y.unsigned := by
  have hx : x.fraction < fractions := Nat.mod_lt _ (by decide)
  have hy : y.fraction < fractions := Nat.mod_lt _ (by decide)
  rw [unsigned_eq, unsigned_eq]
  rw [magnitude, magnitude] at h
  split at h <;> split at h <;> rw [Prod.mk.injEq] at h <;> rw [fractions] at * <;> omega

/-- The lexical form of a word that stands for a number, without its sign. -/
def unsignedText (x : Double) : List Char :=
  if x.isInfinite then "INF".toList else ((x.shortest .up).positional "").toList

theorem toList_lexical (hx : x.isNaN = false) :
    x.lexical.toList = x.signMark.toList ++ x.unsignedText := by
  rw [lexical, hx, if_neg Bool.false_ne_true, String.toList_append, unsignedText]
  split <;> rfl

/-- Without its sign, a lexical form begins with a digit just if the word is finite. -/
theorem exists_unsignedText_eq_cons (x : Double) :
    ∃ c cs, x.unsignedText = c :: cs ∧ c.isDigit = !x.isInfinite ∧ c ≠ '-' ∧ c ≠ 'N' := by
  rw [unsignedText]
  split
  case isTrue hinfinite => exact ⟨'I', ['N', 'F'], by decide, by rw [hinfinite]; decide, by decide⟩
  case isFalse hfinite =>
    obtain ⟨c, cs, htext, hc⟩ := (x.shortest .up).exists_positional_eq_cons
    refine ⟨c, cs, htext, by rw [hc, Bool.eq_false_iff.2 hfinite]; rfl, ?_, ?_⟩ <;>
      · rintro rfl
        exact absurd hc (by decide)

/-- The lexical form of a word without its sign tells the word, sign aside. -/
theorem unsigned_eq_of_unsignedText_eq (h : x.unsignedText = y.unsignedText) :
    x.unsigned = y.unsigned := by
  obtain ⟨c, cs, hx, hcx, -⟩ := x.exists_unsignedText_eq_cons
  obtain ⟨c', cs', hy, hcy, -⟩ := y.exists_unsignedText_eq_cons
  have hkind : x.isInfinite = y.isInfinite := by
    rw [hx, hy] at h
    rw [(List.cons.inj h).1, hcy] at hcx
    simpa using hcx.symm
  by_cases hinfinite : x.isInfinite = true
  · rw [unsigned_eq_of_isInfinite hinfinite, unsigned_eq_of_isInfinite (hkind ▸ hinfinite)]
  · rw [unsignedText, unsignedText, if_neg hinfinite, if_neg (hkind ▸ hinfinite)] at h
    have hvalue : (x.shortest .up).value = (y.shortest .up).value := by
      rw [← Decimal.read_positional, ← Decimal.read_positional, h]
    have hrounds := y.rounds_shortest .up
    rw [← hvalue] at hrounds
    exact unsigned_eq_of_magnitude_eq (magnitude_eq_of_rounds (x.rounds_shortest .up) hrounds)

theorem toList_signMark (x : Double) :
    x.signMark.toList = if x.isNegative then ['-'] else [] := by
  rw [signMark]
  split <;> rfl

/-- Only the words that stand for no number have the lexical form that begins with `N`. -/
theorem lexical_ne_of_isNaN (hx : x.isNaN = true) (hy : y.isNaN = false) :
    x.lexical ≠ y.lexical := by
  intro h
  obtain ⟨c, cs, htext, -, -, hc⟩ := y.exists_unsignedText_eq_cons
  have hlist := congrArg String.toList h
  rw [lexical, hx, if_pos rfl, toList_lexical hy, toList_signMark, htext] at hlist
  split at hlist
  · cases hlist
  · exact hc (List.cons.inj hlist).1.symm

/-- **The lexical form of a double tells its word**; the words that stand for no number have one
form. -/
theorem lexical_inj : x.lexical = y.lexical ↔ x = y ∨ x.isNaN = true ∧ y.isNaN = true := by
  constructor
  · intro h
    cases hx : x.isNaN <;> cases hy : y.isNaN
    case true.true => exact .inr ⟨rfl, rfl⟩
    case true.false => exact absurd h (lexical_ne_of_isNaN hx hy)
    case false.true => exact absurd h.symm (lexical_ne_of_isNaN hy hx)
    case false.false =>
      obtain ⟨c, cs, hxtext, -, hc, -⟩ := x.exists_unsignedText_eq_cons
      obtain ⟨c', cs', hytext, -, hc', -⟩ := y.exists_unsignedText_eq_cons
      have hlist := congrArg String.toList h
      rw [toList_lexical hx, toList_lexical hy, toList_signMark, toList_signMark] at hlist
      have hsign : x.isNegative = y.isNegative := by
        cases hxs : x.isNegative <;> cases hys : y.isNegative
        case false.false | true.true => rfl
        case false.true =>
          rw [hxs, hys, hxtext] at hlist
          exact absurd (List.cons.inj hlist).1 hc
        case true.false =>
          rw [hxs, hys, hytext] at hlist
          exact absurd (List.cons.inj hlist).1.symm hc'
      rw [hsign] at hlist
      exact .inl (eq_of_unsigned_eq hsign
        (unsigned_eq_of_unsignedText_eq (List.append_cancel_left hlist)))
  · rintro (rfl | ⟨hx, hy⟩)
    · rfl
    · rw [lexical, lexical, hx, hy, if_pos rfl, if_pos rfl]

end Double

end LinkedStore
