/-!
# Cutting text at a character

Paths, names and IRIs are read by cutting a list of characters at a mark.  This file holds the
cuts that the rest of the library is written with: at the first or the last mark, at every mark,
and behind or before a given text.

## Main definitions

* `Text.cutFirst`, `Text.cutLast` : the text on both sides of the first or last mark.
* `Text.pieces` : the text between all marks.
* `Text.after?`, `Text.before?` : what is left when a given text is taken off an end.
* `Text.cutAt` : the text on both sides of a mark of several characters.
* `Text.trimEnd` : the text without the marks at its end.

## Main statements

* `Text.cutFirst_eq_some_iff` : a first cut is the decomposition whose left part has no mark.
* `Text.cutLast_eq_some_iff` : a last cut is the decomposition whose right part has no mark.
* `Text.after?_eq_some_iff`, `Text.before?_eq_some_iff` : taking a text off undoes appending it.
-/

namespace LinkedStore.Text

/-! ### One cut -/

/-- The text before and after the first `mark`, if there is one. -/
def cutFirst (mark : Char) : List Char → Option (List Char × List Char)
  | [] => none
  | c :: rest =>
      if c = mark then some ([], rest)
      else (cutFirst mark rest).map fun cut => (c :: cut.1, cut.2)

/-- The text before and after the last `mark`, if there is one. -/
def cutLast (mark : Char) : List Char → Option (List Char × List Char)
  | [] => none
  | c :: rest =>
      match cutLast mark rest with
      | some cut => some (c :: cut.1, cut.2)
      | none => if c = mark then some ([], rest) else none

theorem cutFirst_eq_none_iff {mark : Char} {text : List Char} :
    cutFirst mark text = none ↔ mark ∉ text := by
  induction text with
  | nil => simp [cutFirst]
  | cons c rest ih =>
      by_cases h : c = mark
      · simp [cutFirst, h]
      · simp [cutFirst, h, ih, Ne.symm h]

theorem cutLast_eq_none_iff {mark : Char} {text : List Char} :
    cutLast mark text = none ↔ mark ∉ text := by
  induction text with
  | nil => simp [cutLast]
  | cons c rest ih =>
      rw [cutLast]
      cases hcut : cutLast mark rest with
      | some cut =>
          have hmem : mark ∈ rest :=
            Decidable.byContradiction fun hnot => by simp [ih.2 hnot] at hcut
          simp [hmem]
      | none =>
          have hnot : mark ∉ rest := ih.1 hcut
          by_cases h : c = mark
          · simp [h]
          · simp [h, hnot, Ne.symm h]

/-- A first cut puts the text back together around the mark, and its left part has no mark. -/
theorem cutFirst_eq_some_iff {mark : Char} {text before behind : List Char} :
    cutFirst mark text = some (before, behind) ↔
      text = before ++ mark :: behind ∧ mark ∉ before := by
  induction text generalizing before with
  | nil => simp [cutFirst]
  | cons c rest ih =>
      by_cases h : c = mark
      · subst h
        cases before <;> simp_all [cutFirst, eq_comm]
      · cases before with
        | nil => simp [cutFirst, h]
        | cons b bs =>
            simp only [cutFirst, h, if_false, Option.map_eq_some_iff, Prod.mk.injEq,
              List.cons.injEq, List.cons_append, List.mem_cons, not_or]
            constructor
            · rintro ⟨⟨left, right⟩, hcut, ⟨rfl, rfl⟩, rfl⟩
              obtain ⟨htext, hmark⟩ := ih.1 hcut
              exact ⟨⟨rfl, htext⟩, Ne.symm h, hmark⟩
            · rintro ⟨⟨rfl, htext⟩, -, hmark⟩
              exact ⟨(bs, behind), ih.2 ⟨htext, hmark⟩, ⟨rfl, rfl⟩, rfl⟩

/-- A last cut puts the text back together around the mark, and its right part has no mark. -/
theorem cutLast_eq_some_iff {mark : Char} {text before behind : List Char} :
    cutLast mark text = some (before, behind) ↔
      text = before ++ mark :: behind ∧ mark ∉ behind := by
  induction text generalizing before behind with
  | nil => simp [cutLast]
  | cons c rest ih =>
      rw [cutLast]
      cases hcut : cutLast mark rest with
      | some cut =>
          obtain ⟨left, right⟩ := cut
          simp only [Option.some.injEq, Prod.mk.injEq]
          constructor
          · rintro ⟨rfl, rfl⟩
            obtain ⟨htext, hmark⟩ := ih.1 hcut
            exact ⟨by simp [htext], hmark⟩
          · rintro ⟨htext, hmark⟩
            cases before with
            | nil =>
                obtain ⟨hrest, -⟩ := ih.1 hcut
                simp only [List.nil_append, List.cons.injEq] at htext
                rw [← htext.2, hrest] at hmark
                simp at hmark
            | cons b bs =>
                simp only [List.cons_append, List.cons.injEq] at htext
                obtain ⟨rfl, hrest⟩ := htext
                rw [ih.2 ⟨hrest, hmark⟩] at hcut
                simp only [Option.some.injEq, Prod.mk.injEq] at hcut
                exact ⟨by rw [hcut.1], hcut.2.symm⟩
      | none =>
          have hnot : mark ∉ rest := cutLast_eq_none_iff.1 hcut
          cases before with
          | nil =>
              by_cases h : c = mark
              · subst h
                simp only [if_true, Option.some.injEq, Prod.mk.injEq, true_and,
                  List.nil_append, List.cons.injEq]
                exact ⟨fun h => ⟨h, h ▸ hnot⟩, fun h => h.1⟩
              · simp [h]
          | cons b bs =>
              have hleft : (if c = mark then some (([] : List Char), rest) else none) ≠
                  some (b :: bs, behind) := by
                by_cases h : c = mark <;> simp [h]
              refine ⟨fun h => absurd h hleft, ?_⟩
              rintro ⟨htext, -⟩
              simp only [List.cons_append, List.cons.injEq] at htext
              exact absurd (htext.2 ▸ by simp) hnot

/-! ### All cuts -/

/-- The text between the marks, one piece more than there are marks. -/
def pieces (mark : Char) : List Char → List (List Char)
  | [] => [[]]
  | c :: rest =>
      if c = mark then [] :: pieces mark rest
      else
        match pieces mark rest with
        | [] => [[c]]
        | piece :: more => (c :: piece) :: more

/-- The piece behind the last mark; the whole text if there is none. -/
def lastPiece (mark : Char) (text : List Char) : List Char :=
  match cutLast mark text with
  | some (_, behind) => behind
  | none => text

/-- The piece before the first mark; the whole text if there is none. -/
def firstPiece (mark : Char) (text : List Char) : List Char :=
  text.takeWhile (· ≠ mark)

/-! ### Taking a text off an end -/

/-- What follows `lead`, if the text begins with it. -/
def after? : List Char → List Char → Option (List Char)
  | [], text => some text
  | _ :: _, [] => none
  | l :: lead, c :: text => if l = c then after? lead text else none

theorem after?_eq_some_iff {lead text rest : List Char} :
    after? lead text = some rest ↔ text = lead ++ rest := by
  induction lead generalizing text with
  | nil => simp [after?]
  | cons l lead ih =>
      cases text with
      | nil => simp [after?]
      | cons c text =>
          by_cases h : l = c
          · simp [after?, h, ih]
          · simp [after?, h, Ne.symm h]

@[simp] theorem after?_append (lead rest : List Char) : after? lead (lead ++ rest) = some rest :=
  after?_eq_some_iff.2 rfl

/-- What precedes `tail`, if the text ends with it. -/
def before? (tail text : List Char) : Option (List Char) :=
  (after? tail.reverse text.reverse).map List.reverse

theorem before?_eq_some_iff {tail text rest : List Char} :
    before? tail text = some rest ↔ text = rest ++ tail := by
  simp only [before?, Option.map_eq_some_iff, after?_eq_some_iff]
  constructor
  · rintro ⟨rest', htext, rfl⟩
    have := congrArg List.reverse htext
    simpa using this
  · rintro rfl
    exact ⟨rest.reverse, by simp, by simp⟩

@[simp] theorem before?_append (rest tail : List Char) :
    before? tail (rest ++ tail) = some rest :=
  before?_eq_some_iff.2 rfl

/-! ### A mark of several characters -/

/-- The text before and behind the first occurrence of a mark of one or more characters. -/
def cutAt (mark : List Char) : List Char → Option (List Char × List Char)
  | [] => none
  | c :: rest =>
      match after? mark (c :: rest) with
      | some behind => some ([], behind)
      | none => (cutAt mark rest).map fun cut => (c :: cut.1, cut.2)

/-- A cut at a mark puts the text back together around the mark. -/
theorem eq_append_of_cutAt {mark text before behind : List Char}
    (h : cutAt mark text = some (before, behind)) : text = before ++ mark ++ behind := by
  induction text generalizing before with
  | nil => simp [cutAt] at h
  | cons c rest ih =>
      rw [cutAt] at h
      split at h
      · rename_i found hfound
        simp only [Option.some.injEq, Prod.mk.injEq] at h
        obtain ⟨rfl, rfl⟩ := h
        simpa using after?_eq_some_iff.1 hfound
      · obtain ⟨cut, hcut, heq⟩ := Option.map_eq_some_iff.1 h
        simp only [Prod.mk.injEq] at heq
        obtain ⟨rfl, rfl⟩ := heq
        simp [ih hcut]

/-! ### Ends -/

/-- Whether the text begins with `lead`. -/
def startsWith (lead text : List Char) : Bool :=
  (after? lead text).isSome

theorem startsWith_iff {lead text : List Char} :
    startsWith lead text = true ↔ ∃ rest, text = lead ++ rest := by
  simp [startsWith, Option.isSome_iff_exists, after?_eq_some_iff]

/-- The text without the marks at its end. -/
def trimEnd (mark : Char) (text : List Char) : List Char :=
  (text.reverse.dropWhile (· = mark)).reverse

end LinkedStore.Text
