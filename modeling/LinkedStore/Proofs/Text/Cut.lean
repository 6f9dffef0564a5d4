import LinkedStore.Text.Cut
import Mathlib.Data.List.DropRight

/-!
# Cuts of joined text

What the cuts of `LinkedStore.Text.Cut` give on a text that is put together around a mark: the
pieces of the two sides follow each other, and a mark of several characters is found where it was
put, if the side before it lacks one of its characters.

## Main statements

* `Text.pieces_append` : the pieces of a text joined at a mark.
* `Text.pieces_of_notMem` : a text without the mark is one piece.
* `Text.cutFirst_firstPiece` : the first piece is what a first cut leaves before the mark.
* `Text.startsWith_append_cons` : a beginning is found before any character that it lacks.
* `Text.cutAt_append` : a mark of several characters is found where it was put.
* `Text.before?_eq_none_iff` : when a text does not end with another.
* `Text.trimEnd_ne_append`, `Text.trimEnd_eq_self` : trimmed texts are those that no mark ends.
-/

namespace LinkedStore.Text

variable {mark c : Char} {text lead before behind a b : List Char}

/-! ### Pieces -/

theorem pieces_ne_nil (mark : Char) (text : List Char) : pieces mark text ≠ [] := by
  cases text with
  | nil => simp [pieces]
  | cons c rest =>
      rw [pieces]
      split
      · simp
      · split <;> simp

/-- The pieces of a text joined at a mark are those of its two sides. -/
theorem pieces_append (mark : Char) (before behind : List Char) :
    pieces mark (before ++ mark :: behind) = pieces mark before ++ pieces mark behind := by
  induction before with
  | nil => simp [pieces]
  | cons c before ih =>
      rw [List.cons_append, pieces, pieces, ih]
      by_cases h : c = mark
      · simp [h]
      · obtain ⟨piece, more, hpieces⟩ := List.exists_cons_of_ne_nil (pieces_ne_nil mark before)
        simp [h, hpieces]

/-- A text without the mark is one piece. -/
theorem pieces_of_notMem (h : mark ∉ text) : pieces mark text = [text] := by
  induction text with
  | nil => rfl
  | cons c text ih =>
      obtain ⟨hc, htext⟩ : mark ≠ c ∧ mark ∉ text := by simpa using h
      rw [pieces, ih htext]
      simp [Ne.symm hc]

/-- The first piece is what a first cut leaves before the mark, or the whole text. -/
theorem cutFirst_firstPiece (mark : Char) (text : List Char) :
    cutFirst mark text = none ∧ firstPiece mark text = text ∨
      ∃ behind, cutFirst mark text = some (firstPiece mark text, behind) := by
  induction text with
  | nil => exact .inl ⟨rfl, rfl⟩
  | cons c text ih =>
      by_cases hc : c = mark
      · exact .inr ⟨text, by simp [cutFirst, firstPiece, hc]⟩
      · rw [firstPiece] at ih
        rw [firstPiece, List.takeWhile_cons_of_pos (by simpa using hc), cutFirst, if_neg hc]
        rcases ih with ⟨hcut, hpiece⟩ | ⟨behind, hcut⟩
        · exact .inl ⟨by rw [hcut]; rfl, by rw [hpiece]⟩
        · exact .inr ⟨behind, by rw [hcut]; rfl⟩

theorem firstPiece_of_notMem (h : mark ∉ text) : firstPiece mark text = text := by
  rcases cutFirst_firstPiece mark text with ⟨-, hpiece⟩ | ⟨behind, hcut⟩
  · exact hpiece
  · rw [cutFirst_eq_none_iff.2 h] at hcut
    cases hcut

theorem head?_pieces (mark : Char) (text : List Char) :
    (pieces mark text).head? = some (firstPiece mark text) := by
  rcases cutFirst_firstPiece mark text with ⟨hcut, hpiece⟩ | ⟨behind, hcut⟩
  · rw [pieces_of_notMem (cutFirst_eq_none_iff.1 hcut), hpiece]
    rfl
  · obtain ⟨htext, hmark⟩ := cutFirst_eq_some_iff.1 hcut
    generalize firstPiece mark text = piece at htext hmark ⊢
    rw [htext, pieces_append, pieces_of_notMem hmark]
    rfl

/-! ### Ends -/

theorem before?_eq_none_iff : before? b text = none ↔ ∀ rest, text ≠ rest ++ b := by
  simp only [Option.eq_none_iff_forall_ne_some, ne_eq, before?_eq_some_iff]

theorem trimEnd_eq_rdropWhile (mark : Char) (text : List Char) :
    trimEnd mark text = text.rdropWhile (· = mark) := rfl

/-- Nothing is left of a text just if it is made of marks. -/
theorem trimEnd_eq_nil_iff : trimEnd mark text = [] ↔ ∀ c ∈ text, c = mark := by
  rw [trimEnd_eq_rdropWhile, List.rdropWhile_eq_nil_iff]
  simp

/-- No mark is left at the end of a text. -/
theorem trimEnd_ne_append (mark : Char) (text front : List Char) :
    trimEnd mark text ≠ front ++ [mark] := by
  intro h
  rw [trimEnd_eq_rdropWhile] at h
  have hlast := List.rdropWhile_last_not (· = mark) text (by simp [h])
  simp [h] at hlast

/-- A text that no mark ends is left as it is. -/
theorem trimEnd_eq_self (h : ∀ front, text ≠ front ++ [mark]) : trimEnd mark text = text := by
  rw [trimEnd_eq_rdropWhile, List.rdropWhile_eq_self_iff]
  intro hne hlast
  refine h text.dropLast ?_
  rw [← of_decide_eq_true hlast, List.dropLast_append_getLast hne]

theorem startsWith_eq_false_iff : startsWith lead text = false ↔ after? lead text = none := by
  rw [startsWith, Option.isSome_eq_false_iff, Option.isNone_iff_eq_none]

/-- What begins with a text that lacks a character begins with it before that character. -/
theorem startsWith_append_cons (hc : c ∉ lead) :
    startsWith lead (a ++ c :: b) = startsWith lead a := by
  induction lead generalizing a with
  | nil => rfl
  | cons l lead ih =>
      obtain ⟨hl, hlead⟩ : c ≠ l ∧ c ∉ lead := by simpa using hc
      cases a with
      | nil => simp [startsWith, after?, hl.symm]
      | cons x a =>
          by_cases hx : l = x
          · simpa [startsWith, after?, hx] using ih hlead
          · simp [startsWith, after?, hx]

theorem startsWith_firstPiece (hmark : mark ∉ lead) :
    startsWith lead (firstPiece mark text) = startsWith lead text := by
  rcases cutFirst_firstPiece mark text with ⟨-, hpiece⟩ | ⟨behind, hcut⟩
  · rw [hpiece]
  · obtain ⟨htext, -⟩ := cutFirst_eq_some_iff.1 hcut
    generalize firstPiece mark text = piece at htext ⊢
    rw [htext, startsWith_append_cons hmark]

/-! ### A mark of several characters -/

/-- A text without one character of the mark has no occurrence of the mark. -/
theorem cutAt_of_notMem (hc : c ∈ a) (htext : c ∉ text) : cutAt a text = none := by
  rw [Option.eq_none_iff_forall_ne_some]
  rintro ⟨before, behind⟩ hcut
  rw [eq_append_of_cutAt hcut] at htext
  simp [hc] at htext

/-- A mark of several characters is found where it was put, if the text before it lacks a
character that the mark has once from its left. -/
theorem cutAt_append (ha : c ∉ a) (hbefore : c ∉ before) :
    cutAt (a ++ c :: b) (before ++ (a ++ c :: b) ++ behind) = some (before, behind) := by
  induction before with
  | nil =>
      have hfound : after? (a ++ c :: b) (a ++ c :: b ++ behind) = some behind := after?_append ..
      cases hmark : a ++ c :: b with
      | nil => simp at hmark
      | cons l mark =>
          rw [hmark] at hfound
          simp only [List.nil_append, List.cons_append] at hfound ⊢
          rw [cutAt, hfound]
  | cons x before ih =>
      have hrest : c ∉ before := fun h => hbefore (List.mem_cons_of_mem x h)
      -- An occurrence at `x` would have its first `c` before the first `c` of the text.
      have hnot : after? (a ++ c :: b) (x :: before ++ (a ++ c :: b) ++ behind) = none := by
        rw [Option.eq_none_iff_forall_ne_some]
        intro found hfound
        have htext := after?_eq_some_iff.1 hfound
        have hfar : cutFirst c (x :: before ++ (a ++ c :: b) ++ behind) =
            some (x :: before ++ a, b ++ behind) := by
          refine cutFirst_eq_some_iff.2 ⟨by simp, ?_⟩
          rw [List.mem_append]
          exact not_or.2 ⟨hbefore, ha⟩
        have hnear : cutFirst c (x :: before ++ (a ++ c :: b) ++ behind) =
            some (a, b ++ found) :=
          cutFirst_eq_some_iff.2 ⟨by rw [htext]; simp, ha⟩
        have hsame := Option.some.inj (hfar.symm.trans hnear)
        have hlen := congrArg List.length (Prod.mk.inj hsame).1
        simp only [List.length_append, List.length_cons] at hlen
        omega
      simp only [List.cons_append] at hnot ⊢
      rw [cutAt, hnot]
      simp only [ih hrest, Option.map_some]

end LinkedStore.Text
