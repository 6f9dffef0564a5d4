import LinkedStore.Proofs.Text.Bytes
import LinkedStore.Rdf.Triple
import Mathlib.Algebra.Group.Nat.Defs

/-!
# The order of terms and triples

Values, terms and triples are ordered totally, and what compares as equal is equal.  Texts are
compared as their bytes are, and doubles as their words are in the total order of the interchange
standard: by sign, and then by magnitude, so that an order of the numbers that they stand for is
kept and words that stand for no number come outermost.

## Main definitions

* `Double.totalOrder` : the total order on words.
* `Double.scaled` : the number that a finite word stands for, in units of the least one.

## Main statements

* `Double.compare_orderKey` : doubles are compared in the total order.
* `Double.orderKey_lt_of_scaled_lt`, `Double.orderKey_lt_of_isNaN` : what the order is about.
* Instances `Std.TransOrd` and `Std.LawfulEqOrd` for values, terms and triples.
-/

namespace LinkedStore

/-! ### Orders by keys -/

section Key

variable {α β : Type} [Ord α] {cmp : β → β → Ordering} {key : α → β}

/-- An order by keys is total if the order of the keys is. -/
theorem transOrd_of_key [Std.TransCmp cmp] (h : ∀ a b : α, compare a b = cmp (key a) (key b)) :
    Std.TransOrd α where
  eq_swap {a b} := by
    rw [h a b, h b a]
    exact Std.OrientedCmp.eq_swap
  isLE_trans {a b c} hab hbc := by
    rw [h] at hab hbc ⊢
    exact Std.TransCmp.isLE_trans hab hbc

/-- An order by keys tells members apart if their keys do. -/
theorem lawfulEqOrd_of_key [Std.LawfulEqCmp cmp]
    (h : ∀ a b : α, compare a b = cmp (key a) (key b)) (hkey : Function.Injective key) :
    Std.LawfulEqOrd α where
  compare_self {a} := by
    rw [h]
    exact Std.ReflCmp.compare_self
  eq_of_compare {a b} hab := by
    rw [h] at hab
    exact hkey (Std.LawfulEqCmp.eq_of_compare hab)

end Key

section Pair

variable {α β : Type} {cmp : α → α → Ordering} {cmp' : β → β → Ordering}

/-- The order of pairs by their first members, and then by their second ones. -/
def comparePair (cmp : α → α → Ordering) (cmp' : β → β → Ordering) (p q : α × β) : Ordering :=
  compareLex (fun p q => cmp p.1 q.1) (fun p q => cmp' p.2 q.2) p q

instance [Std.TransCmp cmp] [Std.TransCmp cmp'] : Std.TransCmp (comparePair cmp cmp') :=
  have : Std.TransCmp fun p q : α × β => cmp p.1 q.1 :=
    { eq_swap := Std.OrientedCmp.eq_swap, isLE_trans := Std.TransCmp.isLE_trans }
  have : Std.TransCmp fun p q : α × β => cmp' p.2 q.2 :=
    { eq_swap := Std.OrientedCmp.eq_swap, isLE_trans := Std.TransCmp.isLE_trans }
  inferInstanceAs (Std.TransCmp (compareLex _ _))

instance [Std.LawfulEqCmp cmp] [Std.LawfulEqCmp cmp'] : Std.LawfulEqCmp (comparePair cmp cmp') where
  compare_self {p} := by
    simp only [comparePair, compareLex_eq_eq, Std.ReflCmp.compare_self, and_self]
  eq_of_compare {p q} h := by
    rw [comparePair, compareLex_eq_eq] at h
    exact Prod.ext (Std.LawfulEqCmp.eq_of_compare h.1) (Std.LawfulEqCmp.eq_of_compare h.2)

end Pair

/-! ### Doubles -/

namespace Double

variable {x y : Double}

/-- The total order on words: those with the sign bit first, and the greatest of them before the
others; the rest from the least to the greatest. -/
def totalOrder (x y : Double) : Ordering :=
  match x.isNegative, y.isNegative with
  | true, false => .lt
  | false, true => .gt
  | false, false => compare x.bits.toNat y.bits.toNat
  | true, true => compare y.bits.toNat x.bits.toNat

/-- Doubles are compared in the total order. -/
theorem compare_orderKey (x y : Double) : compare x.orderKey y.orderKey = x.totalOrder y := by
  have hlimit (z : Double) : z.bits.toNat < 2 * Word.signedLimit := z.bits.toNat_lt
  have hx := hlimit x
  have hy := hlimit y
  have hcompare {i j : Int} {m n : Nat} (hlt : i < j ↔ m < n) (heq : i = j ↔ m = n) :
      compare i j = compare m n := by
    change compareOfLessAndEq i j = compareOfLessAndEq m n
    simp only [compareOfLessAndEq, hlt, heq]
  by_cases hxs : Word.signedLimit ≤ x.bits.toNat <;>
    by_cases hys : Word.signedLimit ≤ y.bits.toNat <;>
    simp only [orderKey, totalOrder, isNegative, hxs, hys, if_true, if_false, decide_true,
      decide_false]
  · exact hcompare (by omega) (by omega)
  · exact Int.compare_eq_lt.2 (by omega)
  · exact Int.compare_eq_gt.2 (by omega)
  · exact hcompare (by omega) (by omega)

/-! What the order is about: the numbers that words stand for, and words that stand for none. -/

/-- The number that a finite word stands for, sign aside, in units of the least one. -/
def scaledMagnitude (x : Double) : Nat := x.magnitude.1 * 2 ^ (x.magnitude.2 + 1074).toNat

/-- The number that a finite word stands for, in units of the least one. -/
def scaled (x : Double) : Int := if x.isNegative then -x.scaledMagnitude else x.scaledMagnitude

/-- A word without its sign bit. -/
def unsigned (x : Double) : Nat := x.bits.toNat % Word.signedLimit

theorem unsigned_eq (x : Double) : x.unsigned = x.biasedExponent * fractions + x.fraction := by
  simp only [unsigned, biasedExponent, fraction, fractions, Word.signedLimit]
  omega

theorem orderKey_eq (x : Double) :
    x.orderKey = if x.isNegative then -1 - (x.unsigned : Int) else x.unsigned := by
  have hx : x.bits.toNat < 2 * Word.signedLimit := x.bits.toNat_lt
  by_cases hs : Word.signedLimit ≤ x.bits.toNat
  · rw [orderKey, if_pos hs, isNegative, decide_eq_true hs, if_pos rfl, unsigned]
    simp only [Word.signedLimit] at *
    omega
  · rw [orderKey, if_neg hs, isNegative, decide_eq_false hs, if_neg Bool.false_ne_true, unsigned,
      Nat.mod_eq_of_lt (Nat.lt_of_not_le hs)]

theorem scaledMagnitude_eq (x : Double) : x.scaledMagnitude =
    if x.biasedExponent = 0 then x.fraction
    else (fractions + x.fraction) * 2 ^ (x.biasedExponent - 1) := by
  rw [scaledMagnitude, magnitude]
  split
  · simp
  · have hshift : ((x.biasedExponent : Int) - 1075 + 1074).toNat = x.biasedExponent - 1 := by omega
    rw [hshift]

/-- A word that is no greater, sign aside, stands for no greater number. -/
theorem scaledMagnitude_le (h : x.unsigned ≤ y.unsigned) :
    x.scaledMagnitude ≤ y.scaledMagnitude := by
  have hx : x.fraction < fractions := Nat.mod_lt _ (by decide)
  have hy : y.fraction < fractions := Nat.mod_lt _ (by decide)
  rw [unsigned_eq, unsigned_eq] at h
  rw [scaledMagnitude_eq, scaledMagnitude_eq]
  generalize x.fraction = f at *
  generalize y.fraction = f' at *
  generalize x.biasedExponent = e at *
  generalize y.biasedExponent = e' at *
  have hlex : e < e' ∨ e = e' ∧ f ≤ f' := by
    simp only [fractions] at h hx hy
    omega
  rcases hlex with hexponent | ⟨rfl, hfraction⟩
  · -- the numbers of a lower exponent are less than the least one of a higher exponent
    have hleast : fractions * 2 ^ (e' - 1) ≤ (fractions + f') * 2 ^ (e' - 1) :=
      Nat.mul_le_mul_right _ (Nat.le_add_right _ _)
    rw [if_neg (Nat.ne_of_gt (Nat.zero_lt_of_lt hexponent))]
    refine Nat.le_trans ?_ hleast
    split
    · exact Nat.le_trans (Nat.le_of_lt hx) (Nat.le_mul_of_pos_right _ (Nat.two_pow_pos _))
    · have hdouble : 2 * 2 ^ (e - 1) ≤ 2 ^ (e' - 1) := by
        rw [← Nat.pow_succ']
        exact Nat.pow_le_pow_right Nat.two_pos (by omega)
      calc (fractions + f) * 2 ^ (e - 1)
        _ ≤ (fractions * 2) * 2 ^ (e - 1) := Nat.mul_le_mul_right _ (by omega)
        _ = fractions * (2 * 2 ^ (e - 1)) := Nat.mul_assoc ..
        _ ≤ fractions * 2 ^ (e' - 1) := Nat.mul_le_mul_left _ hdouble
  · split
    · exact hfraction
    · exact Nat.mul_le_mul_right _ (Nat.add_le_add_left hfraction _)

/-- **The total order keeps the order of numbers.** -/
theorem orderKey_lt_of_scaled_lt (h : x.scaled < y.scaled) : x.orderKey < y.orderKey := by
  have hless : x.scaledMagnitude < y.scaledMagnitude → x.unsigned < y.unsigned :=
    fun h => Nat.lt_of_not_le (mt scaledMagnitude_le (Nat.not_le_of_lt h))
  have hgreater : y.scaledMagnitude < x.scaledMagnitude → y.unsigned < x.unsigned :=
    fun h => Nat.lt_of_not_le (mt scaledMagnitude_le (Nat.not_le_of_lt h))
  rw [scaled, scaled] at h
  rw [orderKey_eq, orderKey_eq]
  split at h <;> split at h <;> split <;> omega

/-- A word that stands for no number comes behind all others, or before them if its sign is set. -/
theorem orderKey_lt_of_isNaN (hx : x.isNaN = false) (hy : y.isNaN = true) :
    if y.isNegative then y.orderKey < x.orderKey else x.orderKey < y.orderKey := by
  have hless : x.unsigned < y.unsigned := by
    simp only [isNaN, biasedExponent, fraction, fractions, unsigned, Word.signedLimit,
      Bool.and_eq_true, Bool.and_eq_false_iff, beq_iff_eq, beq_eq_false_iff_ne, bne_iff_ne,
      bne_eq_false_iff_eq] at *
    omega
  rw [orderKey_eq, orderKey_eq]
  split <;> split <;> omega

end Double

/-! ### Values, terms and triples -/

namespace LiteralValue

/-- The rank of a value, and the value among those of its kind. -/
def key : LiteralValue → Nat × String × Bool × Int
  | string s => (0, s, false, 0)
  | boolean b => (1, "", b, 0)
  | integer n => (2, "", false, n)
  | double x => (3, "", false, x.orderKey)

theorem key_injective : Function.Injective key := by
  intro a b h
  cases a <;> cases b <;> simp [key, Double.orderKey_inj] at h <;> rw [h]

/-- Values are ordered by kind, and then as those of their kind are. -/
theorem compare_key (a b : LiteralValue) : compare a b =
    comparePair compare (comparePair compare (comparePair compare compare)) a.key b.key := by
  change order a b = _
  cases a <;> cases b <;> first
    | rfl
    | simp [order, key, comparePair, compareLex]

instance : Std.TransOrd LiteralValue := transOrd_of_key compare_key

instance : Std.LawfulEqOrd LiteralValue := lawfulEqOrd_of_key compare_key key_injective

end LiteralValue

namespace Term

/-- The rank of a term, and what it holds. -/
def key : Term → Nat × String × Option String × LiteralValue
  | blank label => (0, label, none, .string "")
  | iri i => (1, i, none, .string "")
  | literal datatype language value => (2, datatype, language, value)

theorem key_injective : Function.Injective key := by
  intro a b h
  cases a <;> cases b <;> simp_all [key]

/-- Terms are ordered by kind, and then by what they hold. -/
theorem compare_key (a b : Term) : compare a b =
    comparePair compare (comparePair compare (comparePair compare compare)) a.key b.key := by
  change order a b = _
  cases a <;> cases b <;> first
    | rfl
    | simp [order, key, comparePair, compareLex]

instance : Std.TransOrd Term := transOrd_of_key compare_key

instance : Std.LawfulEqOrd Term := lawfulEqOrd_of_key compare_key key_injective

end Term

namespace Triple

/-- The terms of a triple. -/
def key (t : Triple) : Term × Term × Term := (t.subject, t.predicate, t.object)

theorem key_injective : Function.Injective key := by
  rintro ⟨s, p, o⟩ ⟨s', p', o'⟩ h
  simp_all [key]

/-- Triples are ordered by their terms. -/
theorem compare_key (s t : Triple) :
    compare s t = comparePair compare (comparePair compare compare) s.key t.key := rfl

instance : Std.TransOrd Triple := transOrd_of_key compare_key

instance : Std.LawfulEqOrd Triple := lawfulEqOrd_of_key compare_key key_injective

end Triple

end LinkedStore
