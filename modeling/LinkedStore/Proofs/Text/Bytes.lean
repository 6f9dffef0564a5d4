import LinkedStore.Text.Utf8
import Mathlib.Order.Compare

/-!
# Texts and their bytes

Texts are ordered by their characters.  The bytes of a character grow with it, and no character's
bytes begin with those of another, so that texts are ordered as their bytes are.

## Main statements

* `Text.encode_eq` : the bytes of a text are those of its characters, one after the other.
* `Text.compare_utf8EncodeChar` : the bytes of a greater character are greater.
* `Text.compare_encode` : texts are ordered as their bytes are.
-/

namespace LinkedStore.Text

/-! ### The bytes of a text -/

theorem toList_loop_eq (bytes : ByteArray) (i : Nat) (read : List UInt8) :
    ByteArray.toList.loop bytes i read = read.reverse ++ bytes.data.toList.drop i := by
  fun_induction ByteArray.toList.loop bytes i read with
  | case1 i read hlt ih =>
      have hlength : i < bytes.data.toList.length := by simpa using hlt
      have hget : bytes.get! i = bytes.data.toList[i] := by
        rw [Array.getElem_toList]
        exact getElem!_pos bytes.data i hlt
      rw [ih, List.drop_eq_getElem_cons hlength, hget, List.reverse_cons, List.append_assoc,
        List.singleton_append]
  | case2 i read hge =>
      rw [List.drop_eq_nil_of_le (by simpa using Nat.le_of_not_lt hge), List.append_nil]

/-- The bytes of a text are those of its characters. -/
theorem encode_eq (text : String) : encode text = text.toList.flatMap String.utf8EncodeChar := by
  rw [encode, ByteArray.toList, toList_loop_eq, List.reverse_nil, List.nil_append, List.drop_zero,
    String.toUTF8_eq_toByteArray, ← String.utf8Encode_toList, List.utf8Encode,
    List.toList_data_toByteArray]

/-! ### The bytes of a character -/

theorem compare_ofNat {m n : Nat} (hm : m < 256) (hn : n < 256) :
    compare (UInt8.ofNat m) (UInt8.ofNat n) = compare m n := by
  have hlt : UInt8.ofNat m < UInt8.ofNat n ↔ m < n := by
    rw [UInt8.lt_iff_toNat_lt, UInt8.toNat_ofNat_of_lt' hm, UInt8.toNat_ofNat_of_lt' hn]
  have heq : UInt8.ofNat m = UInt8.ofNat n ↔ m = n := by
    rw [← UInt8.toNat_inj, UInt8.toNat_ofNat_of_lt' hm, UInt8.toNat_ofNat_of_lt' hn]
  change compareOfLessAndEq _ _ = compareOfLessAndEq _ _
  simp only [compareOfLessAndEq, hlt, heq]

/-- The bytes of a greater character are greater, whatever follows them. -/
theorem compare_utf8EncodeChar {c d : Char} (h : c < d) (behind behind' : Bytes) :
    compare (String.utf8EncodeChar c ++ behind) (String.utf8EncodeChar d ++ behind') = .lt := by
  have hless : c.val.toNat < d.val.toNat := h
  have hlimit : d.val.toNat < 1114112 := by
    rcases d.valid with hlow | hhigh
    · omega
    · exact hhigh.2
  have hdigits {n : Nat} (hn : n < 1114112) :
      n / 64 / 64 = n / 4096 ∧ n / 4096 / 64 = n / 262144 ∧ n / 262144 % 8 = n / 262144 := by
    omega
  have hc := hdigits (Nat.lt_trans hless hlimit)
  have hd := hdigits hlimit
  have hmono (k : Nat) : c.val.toNat / k ≤ d.val.toNat / k :=
    Nat.div_le_div_right (Nat.le_of_lt hless)
  have hmono₁ := hmono 64
  have hmono₂ := hmono 4096
  have hmono₃ := hmono 262144
  -- a code point is written in one to four digits; the mark of the first grows with their number
  simp only [String.utf8EncodeChar]
  split_ifs
  all_goals
    simp (disch := omega) only [List.cons_append, List.nil_append, List.compare_cons_cons,
      Ordering.then_eq_lt, compare_ofNat, Nat.compare_eq_lt, Nat.compare_eq_eq]
    omega

/-! ### The order of texts -/

theorem compare_flatMap_of_lt {l l' : List Char} (h : l < l') :
    compare (l.flatMap String.utf8EncodeChar) (l'.flatMap String.utf8EncodeChar) = .lt := by
  induction h with
  | @nil c l' =>
      obtain ⟨byte, bytes, hbytes⟩ :=
        List.exists_cons_of_ne_nil (String.utf8EncodeChar_ne_nil (c := c))
      rw [List.flatMap_nil, List.flatMap_cons, hbytes]
      rfl
  | rel h =>
      rw [List.flatMap_cons, List.flatMap_cons]
      exact compare_utf8EncodeChar h _ _
  | @cons c l l' _ ih =>
      have hsame (bytes : Bytes) : compare (bytes ++ l.flatMap String.utf8EncodeChar)
          (bytes ++ l'.flatMap String.utf8EncodeChar) = .lt := by
        induction bytes with
        | nil => exact ih
        | cons byte bytes hbytes =>
            rw [List.cons_append, List.cons_append, List.compare_cons_cons, hbytes,
              Std.ReflOrd.compare_self]
            rfl
      rw [List.flatMap_cons, List.flatMap_cons]
      exact hsame _

/-- **Texts are ordered as their bytes are.** -/
theorem compare_encode (a b : String) : compare (encode a) (encode b) = compare a b := by
  have hless {a b : String} (h : compare a b = .lt) : compare (encode a) (encode b) = .lt := by
    have hlist : a < b := compareOfLessAndEq_eq_lt.1 h
    rw [encode_eq, encode_eq]
    exact compare_flatMap_of_lt hlist
  cases h : compare a b with
  | lt => exact hless h
  | eq => rw [Std.LawfulEqOrd.eq_of_compare h, Std.ReflOrd.compare_self]
  | gt => exact Std.OrientedCmp.gt_of_lt (hless (Std.OrientedCmp.lt_of_gt h))

end LinkedStore.Text
