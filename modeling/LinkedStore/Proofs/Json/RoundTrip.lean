import LinkedStore.Json.Printer
import LinkedStore.Json.Reader
import Mathlib.Data.List.Basic
import Mathlib.Order.Basic

/-!
# Records are read back from their text

A record whose fields are strings and whole numbers is written as a text that is read as the same
record.  A character of a string is written as itself or as an escape, and the escape is read as the
character; a number is written without zeros before its digits, and what follows it ends it.

## Main definitions

* `Json.Plain` : strings, and the whole numbers that a word holds.

## Main statements

* `Json.ofMembers_of_pairwise` : members whose names ascend are kept in their order.
* `Json.Reader.stringBody_flatMap_escaped` : a string is read up to its closing quote.
* `Json.Reader.unsigned_toDigits` : a whole number is read up to what follows it.
* `Json.parse?_render` : a record is read back from its text.
-/

namespace LinkedStore.Json

variable {name : String} {json : Json} {all : List (String × Json)} {c mark : Char} {n : Nat}

/-! ### Members in order -/

/-- A member whose name comes after all others is put at the end. -/
theorem put_of_forall_lt (h : ∀ m ∈ all, m.1 < name) :
    put name json all = all ++ [(name, json)] := by
  induction all with
  | nil => rfl
  | cons m rest ih =>
      have hm : m.1 < name := h m List.mem_cons_self
      rw [put, if_neg (String.lt_asymm hm), if_neg fun heq => String.lt_irrefl _ (heq ▸ hm),
        ih fun other hother => h other (List.mem_cons_of_mem m hother), List.cons_append]

/-- Members whose names ascend are kept in their order. -/
theorem ofMembers_of_pairwise (h : all.Pairwise (·.1 < ·.1)) : ofMembers all = .object all := by
  suffices ∀ held, (held ++ all).Pairwise (·.1 < ·.1) →
      all.foldl (fun held m => put m.1 m.2 held) held = held ++ all by
    rw [ofMembers, this [] h, List.nil_append]
  intro held hheld
  induction all generalizing held with
  | nil => exact (List.append_nil held).symm
  | cons m rest ih =>
      have hlt : ∀ other ∈ held, other.1 < m.1 := fun other hother =>
        (List.pairwise_append.1 hheld).2.2 other hother m List.mem_cons_self
      rw [List.foldl_cons, put_of_forall_lt hlt, ih h.of_cons _ (by simpa using hheld)]
      simp

/-! ### Strings -/

theorem toList_renderString (s : String) :
    (renderString s).toList = '"' :: s.toList.flatMap escaped ++ ['"'] := by
  simp [renderString]

theorem mem_shortEscapes (h : shortEscapes.lookup c = some mark) : (c, mark) ∈ shortEscapes := by
  obtain ⟨front, back, hsplit, -⟩ := List.lookup_eq_some_iff.1 h
  rw [hsplit]
  exact List.mem_append_right front List.mem_cons_self

namespace Reader

/-- An escape of one letter is read as the character that it was written for. -/
theorem stringBody_shortEscape (h : shortEscapes.lookup c = some mark) (rest : List Char) :
    stringBody ('\\' :: mark :: rest) =
      (stringBody rest).map fun read => (c :: read.1, read.2) := by
  have hmem := mem_shortEscapes h
  simp only [shortEscapes, List.mem_cons, Prod.mk.injEq, List.not_mem_nil, or_false] at hmem
  rcases hmem with ⟨rfl, rfl⟩ | ⟨rfl, rfl⟩ | ⟨rfl, rfl⟩ | ⟨rfl, rfl⟩ | ⟨rfl, rfl⟩ | ⟨rfl, rfl⟩ |
    ⟨rfl, rfl⟩
  all_goals cases hrest : stringBody rest <;> simp [stringBody, shortEscape, hrest]

/-- An escape of four digits is read as the control character that it was written for. -/
theorem stringBody_hexDigits (h : c.toNat < 0x20) (rest : List Char) :
    stringBody ('\\' :: 'u' :: Text.hexDigits 4 c.toNat ++ rest) =
      (stringBody rest).map fun read => (c :: read.1, read.2) := by
  have hread : ∀ n : Fin 0x20, Text.hexNumber? (Text.hexDigits 4 n.val) = some n.val := by decide
  have hunit := hread ⟨c.toNat, h⟩
  obtain ⟨x, y, z, w, hdigits⟩ : ∃ x y z w, Text.hexDigits 4 c.toNat = [x, y, z, w] :=
    ⟨_, _, _, _, rfl⟩
  rw [hdigits] at hunit ⊢
  have hunit : hexUnit x y z w = some c.toNat := hunit
  have hlow : c.toNat < 0xD800 ∨ 0xDFFF < c.toNat := .inl (by omega)
  simp only [List.cons_append, List.nil_append]
  rw [stringBody]
  cases stringBody rest <;> simp [hunit, hlow, Char.ofNat_toNat]

/-- A character without an escape is read as itself. -/
theorem stringBody_cons (hplain : shortEscapes.lookup c = none) (h : ¬c.toNat < 0x20)
    (rest : List Char) :
    stringBody (c :: rest) = (stringBody rest).map fun read => (c :: read.1, read.2) := by
  have hquote : c ≠ '"' := by
    rintro rfl
    exact absurd hplain (by decide)
  have hbackslash : c ≠ '\\' := by
    rintro rfl
    exact absurd hplain (by decide)
  rw [stringBody.eq_def]
  cases hrest : stringBody rest <;> simp [hbackslash, h, hrest]

/-- What is written for a character is read as the character. -/
theorem stringBody_escaped (c : Char) (rest : List Char) :
    stringBody (escaped c ++ rest) =
      (stringBody rest).map fun read => (c :: read.1, read.2) := by
  rw [escaped]
  split
  case h_1 mark hmark => exact stringBody_shortEscape hmark rest
  case h_2 hplain =>
    split
    case isTrue hcontrol => exact stringBody_hexDigits hcontrol rest
    case isFalse hcontrol => exact stringBody_cons hplain hcontrol rest

/-- **A string is read up to its closing quote.** -/
theorem stringBody_flatMap_escaped (chars rest : List Char) :
    stringBody (chars.flatMap escaped ++ '"' :: rest) = some (chars, rest) := by
  induction chars with
  | nil => simp [stringBody]
  | cons c chars ih =>
      rw [List.flatMap_cons, List.append_assoc, stringBody_escaped, ih]
      rfl

/-! ### Numbers -/

theorem le_ofDigitChars (digits : List Char) (n : Nat) : n ≤ Nat.ofDigitChars 10 digits n := by
  induction digits generalizing n with
  | nil => exact Nat.le_refl n
  | cons c digits ih =>
      rw [Nat.ofDigitChars_cons]
      exact Nat.le_trans (by omega) (ih _)

/-- All digits are added to a significand if the number that they make up is within the limit. -/
theorem accumulate_eq {digits : List Char} {added : Nat}
    (h : Nat.ofDigitChars 10 digits n ≤ significandLimit) :
    accumulate n digits added = (Nat.ofDigitChars 10 digits n, added + digits.length, []) := by
  induction digits generalizing n added with
  | nil => rfl
  | cons c digits ih =>
      rw [Nat.ofDigitChars_cons] at h ⊢
      have hnext : 10 * n + (c.toNat - 48) ≤ significandLimit :=
        Nat.le_trans (le_ofDigitChars digits _) h
      rw [accumulate, if_pos hnext, List.length_cons, ← Nat.add_assoc, Nat.add_right_comm]
      exact ih h

/-- A number is written without zeros before its digits. -/
theorem eq_zero_of_head?_toDigits (h : (Nat.toDigits 10 n).head? = some '0') : n = 0 := by
  induction n using Nat.strongRecOn with
  | _ n ih =>
      by_cases hn : n < 10
      · rw [Nat.toDigits_of_lt_base hn, List.head?_singleton, Option.some.injEq] at h
        have hdigit : ∀ d : Fin 10, Nat.digitChar d.val = '0' → d.val = 0 := by decide
        exact hdigit ⟨n, hn⟩ h
      · rw [Nat.toDigits_of_base_le (by decide) (Nat.le_of_not_lt hn),
          List.head?_append_of_ne_nil _ Nat.toDigits_ne_nil] at h
        have hzero := ih (n / 10) (by omega) h
        omega

theorem isDigit_of_mem_toDigits (hc : c ∈ Nat.toDigits 10 n) : c.isDigit = true :=
  Nat.isDigit_of_mem_toDigits (by decide) (by decide) hc

/-- **A whole number is read up to the mark that follows it.** -/
theorem unsigned_toDigits (hn : n < Word.limit) (hmark : mark = ',' ∨ mark = '}')
    (rest : List Char) :
    unsigned false (Nat.toDigits 10 n ++ mark :: rest) = some (.whole n, mark :: rest) := by
  have hstop : mark.isDigit = false := by rcases hmark with rfl | rfl <;> decide
  have hwhole : (Nat.toDigits 10 n ++ mark :: rest).takeWhile Char.isDigit =
      Nat.toDigits 10 n := by
    rw [List.takeWhile_append_of_pos fun c => isDigit_of_mem_toDigits,
      List.takeWhile_cons_of_neg (by simp [hstop]), List.append_nil]
  have hlead : ((Nat.toDigits 10 n).isEmpty ||
      ((Nat.toDigits 10 n).head? == some '0' && (Nat.toDigits 10 n).length != 1)) = false := by
    rw [Bool.or_eq_false_iff, Bool.and_eq_false_iff]
    refine ⟨by simp, ?_⟩
    by_cases hhead : (Nat.toDigits 10 n).head? = some '0'
    · rw [eq_zero_of_head?_toDigits hhead]
      exact .inr (by decide)
    · exact .inl (by simpa using hhead)
  have hvalue : accumulate 0 (Nat.toDigits 10 n) 0 = (n, (Nat.toDigits 10 n).length, []) := by
    rw [accumulate_eq, Nat.ofDigitChars_ten_toDigits, Nat.zero_add]
    rw [Nat.ofDigitChars_ten_toDigits]
    exact Nat.le_pred_of_lt hn
  simp only [unsigned, hwhole, hlead, List.drop_left, hvalue]
  rcases hmark with rfl | rfl <;> simp

end Reader

/-! ### Records -/

/-- A string, or a whole number that a word holds. -/
inductive Plain : Json → Prop where
  | string (s : String) : Plain (.string s)
  | whole {n : Nat} (hn : n < Word.limit) : Plain (.number (.whole n))

namespace Reader

/-- A plain value is read up to the mark that follows it. -/
theorem value_render (h : Plain json) (depth : Nat) (hmark : mark = ',' ∨ mark = '}')
    (rest : List Char) :
    value (depth + 1) (json.render.toList ++ mark :: rest) = some (json, mark :: rest) := by
  cases h with
  | string s =>
      have htext : (render (.string s)).toList ++ mark :: rest =
          '"' :: (s.toList.flatMap escaped ++ '"' :: mark :: rest) := by
        simp [render, toList_renderString]
      have hskip (text : List Char) : skipBlanks ('"' :: text) = '"' :: text := rfl
      simp only [htext, value, hskip, stringBody_flatMap_escaped, Option.map_some,
        String.ofList_toList]
  | @whole n hn =>
      obtain ⟨c, digits, hdigits⟩ :=
        List.exists_cons_of_ne_nil (Nat.toDigits_ne_nil (b := 10) (n := n))
      have hc : c.isDigit = true := isDigit_of_mem_toDigits (hdigits ▸ List.mem_cons_self)
      have hne (d : Char) (hd : d.isDigit = false) : c ≠ d := by
        rintro rfl
        rw [hc] at hd
        cases hd
      have htext : (render (.number (.whole n))).toList ++ mark :: rest =
          Nat.toDigits 10 n ++ mark :: rest := by
        simp [render, JsonNumber.text]
      have hskip : skipBlanks (Nat.toDigits 10 n ++ mark :: rest) =
          Nat.toDigits 10 n ++ mark :: rest := by
        rw [skipBlanks, hdigits, List.cons_append, List.dropWhile_cons_of_neg]
        simp [isBlank, hne]
      have hnumber : number (Nat.toDigits 10 n ++ mark :: rest) =
          some (.whole n, mark :: rest) := by
        rw [← unsigned_toDigits hn hmark rest, hdigits, List.cons_append, number]
        intro _ heq
        exact hne '-' (by decide) (List.cons.inj heq).1
      rw [htext, value, hskip]
      split
      case h_7 => rw [hnumber]; rfl
      -- No other value begins with a digit.
      all_goals
        rename_i heq
        rw [hdigits, List.cons_append] at heq
        exact absurd (List.cons.inj heq).1 (hne _ (by decide))

/-- Members are read in their order, up to the closing brace. -/
theorem members_renderMembers (item : ReaderOf Json) (hne : all ≠ [])
    (hall : ∀ m ∈ all, ∀ mark rest, mark = ',' ∨ mark = '}' →
      item (m.2.render.toList ++ mark :: rest) = some (m.2, mark :: rest))
    {fuel : Nat} (hfuel : all.length ≤ fuel) (rest : List Char) :
    members item fuel ((renderMembers all).toList ++ '}' :: rest) = some (all, rest) := by
  induction all generalizing fuel with
  | nil => exact absurd rfl hne
  | cons m more ih =>
      obtain ⟨fuel, rfl⟩ := Nat.exists_eq_add_of_le' (Nat.le_trans (Nat.le_add_left 1 _) hfuel)
      obtain ⟨name, json⟩ := m
      have hjson := hall (name, json) List.mem_cons_self
      cases more with
      | nil =>
          have htext : (renderMembers [(name, json)]).toList ++ '}' :: rest =
              '"' :: (name.toList.flatMap escaped ++
                '"' :: ':' :: (json.render.toList ++ '}' :: rest)) := by
            simp [renderMembers, toList_renderString]
          have hbrace := hjson '}' rest (.inr rfl)
          simp [htext, members, skipBlanks, isBlank, stringBody_flatMap_escaped, hbrace]
      | cons next more =>
          have htext : (renderMembers ((name, json) :: next :: more)).toList ++ '}' :: rest =
              '"' :: (name.toList.flatMap escaped ++
                '"' :: ':' :: (json.render.toList ++
                  ',' :: ((renderMembers (next :: more)).toList ++ '}' :: rest))) := by
            simp [renderMembers, toList_renderString]
          have hcomma :=
            hjson ',' ((renderMembers (next :: more)).toList ++ '}' :: rest) (.inl rfl)
          have hmore := ih (by simp) (fun m hm => hall m (List.mem_cons_of_mem _ hm))
            (Nat.le_of_succ_le_succ hfuel)
          simp [htext, members, skipBlanks, isBlank, stringBody_flatMap_escaped, hcomma, hmore]

end Reader

theorem length_le_length_renderMembers (all : List (String × Json)) :
    all.length ≤ (renderMembers all).toList.length := by
  induction all with
  | nil => exact Nat.le_refl 0
  | cons m more ih =>
      obtain ⟨name, json⟩ := m
      cases more with
      | nil => simp [renderMembers, toList_renderString]
      | cons next more =>
          simp only [renderMembers, String.toList_append, List.length_append, List.length_cons,
            toList_renderString] at ih ⊢
          omega

theorem exists_renderMembers_eq_cons (hne : all ≠ []) :
    ∃ body, (renderMembers all).toList = '"' :: body := by
  obtain ⟨⟨name, json⟩, more, rfl⟩ := List.exists_cons_of_ne_nil hne
  cases more with
  | nil => simp [renderMembers, toList_renderString]
  | cons next more => simp [renderMembers, toList_renderString]

/-- **A record of plain values is read back from its text.** -/
theorem parse?_render (hplain : ∀ m ∈ all, Plain m.2) (hsorted : all.Pairwise (·.1 < ·.1)) :
    parse? (render (.object all)) = some (.object all) := by
  suffices Reader.value 128 (render (.object all)).toList = some (.object all, []) by
    rw [parse?, this]
    rfl
  by_cases hne : all = []
  · subst hne
    rfl
  · obtain ⟨body, hbody⟩ := exists_renderMembers_eq_cons hne
    have hread : Reader.members (Reader.value 127) ('"' :: (body ++ ['}'])).length
        ('"' :: (body ++ ['}'])) = some (all, []) := by
      rw [← List.cons_append, ← hbody, List.length_append]
      exact Reader.members_renderMembers _ hne
        (fun m hm mark rest hmark => Reader.value_render (hplain m hm) 126 hmark rest)
        (Nat.le_trans (length_le_length_renderMembers all) (Nat.le_add_right _ _)) []
    have htext : (render (.object all)).toList = '{' :: '"' :: (body ++ ['}']) := by
      simp [render, hbody]
    have hskip (text : List Char) : Reader.skipBlanks ('"' :: text) = '"' :: text := rfl
    have hopen (text : List Char) : Reader.skipBlanks ('{' :: text) = '{' :: text := rfl
    rw [htext, Reader.value]
    simp only [hskip, hopen]
    rw [if_neg (by decide)]
    simp only [hread, Option.map_some, ofMembers_of_pairwise hsorted]
    rfl

end LinkedStore.Json
