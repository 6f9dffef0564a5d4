import LinkedStore.Store.Path
import Mathlib.Data.List.Induction

/-!
# Paths as lists of segments

An absolute path without empty segments is the path of a list of segments.  On such paths the text
operations are the operations of lists: a child adds a segment, the parent drops the last one, and
the name is the last one.

## Main definitions

* `Path.Segment` : text that may stand between two slashes.
* `Path.ofSegments` : the path of a list of segments.
* `Path.Proper` : a path is that of a list of segments.

## Main statements

* `Path.child_ofSegments`, `Path.parent?_ofSegments`, `Path.name_ofSegments` : the operations.
* `Path.ofSegments_injective` : a path has one list of segments.
* `Path.parent?_child`, `Path.eq_or_parent?_of_parent?_child` : the parent of a child,
  whatever the texts are.
* `Path.isWithin_trans`, `Path.isWithin_of_parent?` : what lies below a path lies within what the
  path is within.
* `Path.Proper.isWithin_iff_mem` : a proper path lies within those on its chain of parents.
-/

namespace LinkedStore.Path

/-- Text that may stand between two slashes: it is not empty and has no slash. -/
@[ext] structure Segment where
  text : String
  ne_empty : text ≠ ""
  noSlash : '/' ∉ text.toList

/-- The characters of a list of segments, each with a slash before it. -/
def charsOf (segs : List Segment) : List Char := segs.flatMap fun s => '/' :: s.text.toList

/-- The path of a list of segments. -/
def ofSegments (segs : List Segment) : String :=
  if segs = [] then "/" else String.ofList (charsOf segs)

/-- An absolute path without empty segments. -/
def Proper (path : String) : Prop := ∃ segs, path = ofSegments segs

variable {segs : List Segment} {s : Segment} {path parent top segment : String}

/-! ### Characters -/

theorem charsOf_concat (segs : List Segment) (s : Segment) :
    charsOf (segs ++ [s]) = charsOf segs ++ '/' :: s.text.toList := by
  simp [charsOf]

theorem toList_text_ne_nil (s : Segment) : s.text.toList ≠ [] := by
  intro h
  exact s.ne_empty (String.toList_inj.1 h)

theorem charsOf_eq_nil : charsOf segs = [] ↔ segs = [] := by
  cases segs <;> simp [charsOf]

theorem charsOf_ne_slash (segs : List Segment) : charsOf segs ≠ ['/'] := by
  cases segs with
  | nil => simp [charsOf]
  | cons s segs =>
      obtain ⟨c, chars, hs⟩ := List.exists_cons_of_ne_nil (toList_text_ne_nil s)
      simp only [charsOf, List.flatMap_cons, hs]
      simp

theorem toList_ofSegments (hsegs : segs ≠ []) : (ofSegments segs).toList = charsOf segs := by
  rw [ofSegments, if_neg hsegs, String.toList_ofList]

theorem toList_ofSegments_concat (segs : List Segment) (s : Segment) :
    (ofSegments (segs ++ [s])).toList = charsOf segs ++ '/' :: s.text.toList := by
  rw [toList_ofSegments (by simp), charsOf_concat]

theorem ofSegments_ne_empty (segs : List Segment) : ofSegments segs ≠ "" := by
  rw [ofSegments]
  split
  · decide
  · rename_i hsegs
    rw [Ne, ← String.toList_inj, String.toList_ofList]
    exact mt charsOf_eq_nil.1 hsegs

/-! ### Parents and children of any path

A path may hold empty segments.  Then it is still the parent of its children that have a name, and
a child without a name has the parent of the path. -/

theorem childChars_ne_nil (parent name : List Char) : childChars parent name ≠ [] := by
  rw [childChars]
  split <;> simp

theorem toList_child (parent name : String) :
    (child parent name).toList = childChars parent.toList name.toList := by
  rw [child, String.toList_ofList]

theorem child_ne_empty (parent name : String) : child parent name ≠ "" := by
  rw [Ne, ← String.toList_inj, toList_child]
  exact childChars_ne_nil _ _

theorem noSlash_name (path : String) : '/' ∉ (name path).toList := by
  rw [name, String.toList_ofList, nameChars, Text.lastPiece]
  cases hcut : Text.cutLast '/' path.toList with
  | none => exact Text.cutLast_eq_none_iff.1 hcut
  | some cut => exact (Text.cutLast_eq_some_iff.1 hcut).2

/-- The empty path has no parent. -/
theorem ne_empty_of_parent? (hparent : parent? path = some parent) : path ≠ "" := by
  rintro rfl
  exact nomatch (show parent? "" = none by decide).symm.trans hparent

/-- The parent of a child is the path that it is a child of. -/
theorem parent?_child (hpath : path ≠ "") (s : Segment) :
    parent? (child path s.text) = some path := by
  have hchars : path.toList ≠ [] := fun h => hpath (String.toList_inj.1 h)
  obtain ⟨front, last, htext⟩ := List.eq_nil_or_concat s.text.toList |>.resolve_left
    (toList_text_ne_nil s)
  have hlast : last ≠ '/' := by
    rintro rfl
    exact s.noSlash (by simp [htext])
  obtain ⟨before, hbefore, heq⟩ : ∃ before : List Char,
      childChars path.toList s.text.toList = before ++ '/' :: s.text.toList ∧
        (if before = [] then ['/'] else before) = path.toList := by
    rw [childChars]
    split
    · rename_i hroot
      exact ⟨[], rfl, hroot.symm⟩
    · exact ⟨path.toList, rfl, if_neg hchars⟩
  have hroot : before ++ '/' :: s.text.toList ≠ ['/'] := by
    rw [htext]
    cases before <;> simp
  have htrim : Text.trimEnd '/' (before ++ '/' :: s.text.toList) =
      before ++ '/' :: s.text.toList := by
    rw [Text.trimEnd, htext]
    simp [hlast]
  have hcut : Text.cutLast '/' (before ++ '/' :: s.text.toList) =
      some (before, s.text.toList) := Text.cutLast_eq_some_iff.2 ⟨rfl, s.noSlash⟩
  rw [parent?, toList_child, hbefore, parentChars, if_neg hroot, htrim, hcut,
    ← String.ofList_toList (s := path), ← heq]
  cases before <;> rfl

/-- A child without a name has the parent of the path that it is a child of. -/
theorem parent?_child_empty (hpath : path ≠ "") (hroot : path ≠ "/") :
    parent? (child path "") = parent? path := by
  have hne : path.toList ≠ [] := fun h => hpath (String.toList_inj.1 h)
  have hchars : path.toList ≠ ['/'] := fun h => hroot (String.toList_inj.1 h)
  have hchild : childChars path.toList "".toList = path.toList ++ ['/'] := by
    rw [childChars, if_neg hchars]
    rfl
  have hlong : path.toList ++ ['/'] ≠ ['/'] := by simpa using hne
  have htrim : Text.trimEnd '/' (path.toList ++ ['/']) = Text.trimEnd '/' path.toList := by
    simp [Text.trimEnd]
  rw [parent?, toList_child, hchild, parentChars, if_neg hlong, htrim, parent?, parentChars,
    if_neg hchars]

/-- The parent of a child, whatever its name, is the path that it is a child of, or the parent of
that path. -/
theorem eq_or_parent?_of_parent?_child (hpath : path ≠ "") (hname : '/' ∉ segment.toList)
    (hparent : parent? (child path segment) = some parent) :
    parent = path ∨ parent? path = some parent := by
  by_cases hempty : segment = ""
  · subst hempty
    by_cases hroot : path = "/"
    · subst hroot
      exact nomatch (show parent? (child "/" "") = none by decide).symm.trans hparent
    · rw [parent?_child_empty hpath hroot] at hparent
      exact Or.inr hparent
  · rw [parent?_child hpath ⟨segment, hempty, hname⟩] at hparent
    exact Or.inl (Option.some.inj hparent).symm

/-! ### The operations -/

/-- A child has one more segment. -/
theorem child_ofSegments (segs : List Segment) (s : Segment) :
    child (ofSegments segs) s.text = ofSegments (segs ++ [s]) := by
  rw [← String.toList_inj, toList_ofSegments_concat, child, String.toList_ofList, childChars,
    ofSegments]
  by_cases hsegs : segs = []
  · subst hsegs
    rfl
  · rw [if_neg hsegs, String.toList_ofList, if_neg (charsOf_ne_slash segs)]

theorem parent?_root : parent? (ofSegments []) = none := by decide

/-- The parent has all segments but the last. -/
theorem parent?_ofSegments (segs : List Segment) (s : Segment) :
    parent? (ofSegments (segs ++ [s])) = some (ofSegments segs) := by
  rw [← child_ofSegments, parent?_child (ofSegments_ne_empty segs)]

/-- The name is the last segment. -/
theorem name_ofSegments (segs : List Segment) (s : Segment) :
    name (ofSegments (segs ++ [s])) = s.text := by
  have hcut : Text.cutLast '/' (charsOf segs ++ '/' :: s.text.toList) =
      some (charsOf segs, s.text.toList) := Text.cutLast_eq_some_iff.2 ⟨rfl, s.noSlash⟩
  rw [name, toList_ofSegments_concat, nameChars, Text.lastPiece, hcut, String.ofList_toList]

/-- A path has one list of segments. -/
theorem ofSegments_injective : Function.Injective ofSegments := by
  intro a b h
  induction a using List.reverseRecOn generalizing b with
  | nil =>
      rcases List.eq_nil_or_concat b with rfl | ⟨b, t, rfl⟩
      · rfl
      · have hparent := congrArg parent? h
        rw [parent?_root, List.concat_eq_append, parent?_ofSegments] at hparent
        exact nomatch hparent
  | append_singleton a s ih =>
      rcases List.eq_nil_or_concat b with rfl | ⟨b, t, rfl⟩
      · have hparent := congrArg parent? h
        rw [parent?_root, parent?_ofSegments] at hparent
        exact nomatch hparent
      · rw [List.concat_eq_append] at h ⊢
        have hparent := congrArg parent? h
        have hname := congrArg name h
        rw [parent?_ofSegments, parent?_ofSegments, Option.some_inj] at hparent
        rw [name_ofSegments, name_ofSegments] at hname
        rw [ih hparent, Segment.ext hname]

/-- A path with a parent is the parent's child under its own name. -/
theorem Proper.exists_segment (hpath : Proper path) (hparent : parent? path = some parent) :
    ∃ segs s, parent = ofSegments segs ∧ path = ofSegments (segs ++ [s]) := by
  obtain ⟨segs, rfl⟩ := hpath
  rcases List.eq_nil_or_concat segs with rfl | ⟨segs, s, rfl⟩
  · rw [parent?_root] at hparent
    exact nomatch hparent
  · rw [List.concat_eq_append, parent?_ofSegments, Option.some_inj] at hparent
    exact ⟨segs, s, hparent.symm, by rw [List.concat_eq_append]⟩

theorem Proper.child (hpath : Proper path) (s : Segment) : Proper (child path s.text) := by
  obtain ⟨segs, rfl⟩ := hpath
  exact ⟨segs ++ [s], child_ofSegments segs s⟩

theorem Proper.parent?_child (hpath : Proper path) (s : Segment) :
    parent? (Path.child path s.text) = some path := by
  obtain ⟨segs, rfl⟩ := hpath
  rw [child_ofSegments, parent?_ofSegments]

theorem Proper.child_ne (hpath : Proper path) (s : Segment) : Path.child path s.text ≠ path := by
  intro heq
  have hlt := length_parent_lt (hpath.parent?_child s)
  rw [heq] at hlt
  exact absurd hlt (Nat.lt_irrefl _)

/-! ### Subtrees -/

theorem isWithin_iff : isWithin top path = true ↔
    path = top ∨ ∃ rest, path.toList = childChars top.toList [] ++ rest := by
  rw [isWithin, Bool.or_eq_true, beq_iff_eq, beginsWith, Text.startsWith_iff, child,
    String.toList_ofList]
  rfl

theorem isWithin_self (path : String) : isWithin path path = true := isWithin_iff.2 (.inl rfl)

/-- What lies within something that lies within a path lies within the path. -/
theorem isWithin_trans {between : String} (h : isWithin top between = true)
    (hpath : isWithin between path = true) : isWithin top path = true := by
  rw [isWithin_iff] at h hpath ⊢
  rcases hpath with rfl | ⟨rest, hrest⟩
  · exact h
  · rcases h with rfl | ⟨rest', hrest'⟩
    · exact Or.inr ⟨rest, hrest⟩
    · right
      rw [childChars] at hrest
      split at hrest
      · rename_i hroot
        -- Only the root and the empty path have the root within them.
        obtain ⟨c, chars, hchars⟩ := List.exists_cons_of_ne_nil (childChars_ne_nil top.toList [])
        rw [hroot, hchars, List.cons_append, List.cons.injEq, eq_comm (a := []),
          List.append_eq_nil_iff] at hrest'
        obtain ⟨rfl, rfl, -⟩ := hrest'
        exact ⟨rest, by rw [hrest, hchars]⟩
      · exact ⟨rest' ++ '/' :: rest, by rw [hrest, hrest']; simp⟩

/-- A path lies within its parent. -/
theorem isWithin_parent (hparent : parent? path = some parent) :
    isWithin parent path = true := by
  obtain ⟨chars, hchars, rfl⟩ := Option.map_eq_some_iff.1 hparent
  have hslashes : ∃ slashes, path.toList = Text.trimEnd '/' path.toList ++ slashes := by
    refine ⟨(path.toList.reverse.takeWhile (decide <| · = '/')).reverse, ?_⟩
    rw [Text.trimEnd, ← List.reverse_append, List.takeWhile_append_dropWhile,
      List.reverse_reverse]
  obtain ⟨slashes, hslashes⟩ := hslashes
  rw [parentChars] at hchars
  rw [isWithin_iff, String.toList_ofList]
  right
  split at hchars
  · cases hchars
  · split at hchars
    · rename_i behind hcut
      obtain rfl := Option.some.inj hchars
      rw [(Text.cutLast_eq_some_iff.1 hcut).1] at hslashes
      exact ⟨behind ++ slashes, hslashes⟩
    · rename_i before behind _ hcut
      obtain rfl := Option.some.inj hchars
      rw [(Text.cutLast_eq_some_iff.1 hcut).1] at hslashes
      rw [childChars]
      split
      · rename_i hroot
        exact ⟨'/' :: (behind ++ slashes), by rw [hslashes, hroot]; simp⟩
      · exact ⟨behind ++ slashes, by rw [hslashes]; simp⟩
    · cases hchars

/-- What lies within a path is no shorter. -/
theorem length_le_of_isWithin (hwithin : isWithin top path = true) :
    top.length ≤ path.length := by
  rcases isWithin_iff.1 hwithin with rfl | ⟨rest, hrest⟩
  · exact Nat.le_refl _
  · have hchild : top.toList.length ≤ (childChars top.toList []).length := by
      rw [childChars]
      split
      · rename_i hroot
        exact Nat.le_of_eq (congrArg List.length hroot)
      · rw [List.length_append]
        exact Nat.le_add_right _ _
    rw [← String.length_toList, ← String.length_toList, hrest, List.length_append]
    exact Nat.le_trans hchild (Nat.le_add_right _ _)

/-- What lies below a path lies within what the path is within. -/
theorem isWithin_of_parent? (hparent : parent? path = some parent)
    (hwithin : isWithin top parent = true) : isWithin top path = true :=
  isWithin_trans hwithin (isWithin_parent hparent)

/-- No other path has the root within it, the empty one aside. -/
theorem eq_root_of_isWithin {top : String} (hempty : top ≠ "") (h : isWithin top "/" = true) :
    top = "/" := by
  rcases isWithin_iff.1 h with heq | ⟨rest, hrest⟩
  · exact heq.symm
  · rw [childChars] at hrest
    split at hrest
    · rename_i hroot
      exact String.toList_inj.1 hroot
    · have hlength := congrArg List.length hrest
      have hpos : top.toList.length ≠ 0 := fun hzero =>
        hempty (String.toList_inj.1 (List.length_eq_zero_iff.1 hzero))
      simp only [List.length_append, List.length_cons, List.length_nil,
        show "/".toList.length = 1 from rfl] at hlength
      omega

/-! ### Chains of parents

What lies within a path is told by the text.  On proper paths this is the same as being below it:
the chain of parents leads there. -/

theorem ancestors_root : ancestors (ofSegments []) = [] := by
  rw [ancestors_eq, parent?_root]

theorem ancestors_ofSegments (segs : List Segment) (s : Segment) :
    ancestors (ofSegments (segs ++ [s])) = ofSegments segs :: ancestors (ofSegments segs) := by
  rw [ancestors_eq, parent?_ofSegments]

/-- The chain from a path in a chain of parents is the rest of that chain. -/
theorem chain_suffix (hmem : top ∈ path :: ancestors path) :
    top :: ancestors top <:+ path :: ancestors path := by
  induction hlength : path.length using Nat.strongRecOn generalizing path with
  | _ length ih =>
      rcases List.mem_cons.1 hmem with rfl | hmem
      · exact List.suffix_refl _
      · rw [ancestors_eq path] at hmem ⊢
        cases hparent : parent? path with
        | none =>
            rw [hparent] at hmem
            exact nomatch hmem
        | some parent =>
            rw [hparent] at hmem
            exact (ih parent.length (hlength ▸ length_parent_lt hparent) hmem rfl).trans
              (List.suffix_cons ..)

/-- A chain of parents leads through one child of a path at most. -/
theorem eq_of_mem_chain {other : String} (htop : top ∈ path :: ancestors path)
    (hother : other ∈ path :: ancestors path) (hparent : parent? top = parent? other) :
    top = other := by
  have hrest : ancestors top = ancestors other := by
    rw [ancestors_eq top, ancestors_eq other, hparent]
  have hlength : (top :: ancestors top).length = (other :: ancestors other).length := by
    rw [List.length_cons, List.length_cons, hrest]
  rcases List.suffix_or_suffix_of_suffix (chain_suffix htop) (chain_suffix hother) with h | h
  · exact (List.cons.inj (h.eq_of_length hlength)).1
  · exact (List.cons.inj (h.eq_of_length hlength.symm)).1.symm

/-- What stands before the last slash is what stands before another one, or goes on behind it. -/
theorem eq_or_exists_append_of_cut {before behind lead rest : List Char} (hbehind : '/' ∉ behind)
    (h : before ++ '/' :: behind = lead ++ '/' :: rest) :
    before = lead ∨ ∃ more, before = lead ++ '/' :: more := by
  have hbefore : Text.cutLast '/' (before ++ '/' :: behind) = some (before, behind) :=
    Text.cutLast_eq_some_iff.2 ⟨rfl, hbehind⟩
  cases hcut : Text.cutLast '/' rest with
  | none =>
      have hlead := Text.cutLast_eq_some_iff.2 ⟨h, Text.cutLast_eq_none_iff.1 hcut⟩
      exact .inl (Prod.mk.inj (Option.some.inj (hbefore.symm.trans hlead))).1
  | some cut =>
      obtain ⟨hrest, hlast⟩ := Text.cutLast_eq_some_iff.1 hcut
      have hlead : before ++ '/' :: behind = (lead ++ '/' :: cut.1) ++ '/' :: cut.2 := by
        rw [h, hrest, List.append_assoc, List.cons_append]
      have hlead := Text.cutLast_eq_some_iff.2 ⟨hlead, hlast⟩
      exact .inr ⟨cut.1, (Prod.mk.inj (Option.some.inj (hbefore.symm.trans hlead))).1⟩

theorem isWithin_root_ofSegments (segs : List Segment) : isWithin "/" (ofSegments segs) = true := by
  rcases segs with _ | ⟨s, segs⟩
  · decide
  · rw [isWithin_iff, toList_ofSegments (List.cons_ne_nil s segs)]
    exact .inr ⟨s.text.toList ++ charsOf segs, rfl⟩

/-- A proper path lies within what its parent lies within, and within itself. -/
theorem Proper.isWithin_iff_of_parent? (hpath : Proper path) (hparent : parent? path = some parent)
    (htop : top ≠ "") : isWithin top path = true ↔ top = path ∨ isWithin top parent = true := by
  constructor
  · intro hwithin
    obtain ⟨segs, s, rfl, rfl⟩ := hpath.exists_segment hparent
    rcases isWithin_iff.1 hwithin with heq | ⟨rest, hrest⟩
    · exact .inl heq.symm
    · right
      rw [toList_ofSegments_concat, childChars] at hrest
      split at hrest
      · rename_i hroot
        obtain rfl : top = "/" := String.toList_inj.1 hroot
        exact isWithin_root_ofSegments segs
      · rename_i hroot
        have hne : top.toList ≠ [] := fun hnil => htop (String.toList_inj.1 hnil)
        -- The slash behind the top tells it from a sibling whose name begins like its own.
        rw [List.append_assoc] at hrest
        rcases eq_or_exists_append_of_cut s.noSlash hrest with hsame | ⟨more, hmore⟩
        · have hsegs : segs ≠ [] := by
            rintro rfl
            exact hne hsame.symm
          exact isWithin_iff.2
            (.inl (String.toList_inj.1 ((toList_ofSegments hsegs).trans hsame)))
        · have hsegs : segs ≠ [] := by
            rintro rfl
            exact hne (List.append_eq_nil_iff.1 hmore.symm).1
          refine isWithin_iff.2 (.inr ⟨more, ?_⟩)
          rw [toList_ofSegments hsegs, hmore, childChars, if_neg hroot, List.append_assoc]
          rfl
  · rintro (rfl | hwithin)
    · exact isWithin_self _
    · exact isWithin_of_parent? hparent hwithin

/-- **A proper path lies within another one exactly if the chain of parents from it leads there**,
wherever names of siblings begin alike. -/
theorem Proper.isWithin_iff_mem (hpath : Proper path) (htop : top ≠ "") :
    isWithin top path = true ↔ top ∈ path :: ancestors path := by
  obtain ⟨segs, rfl⟩ := hpath
  induction segs using List.reverseRecOn with
  | nil =>
      rw [ancestors_root, List.mem_singleton]
      refine ⟨eq_root_of_isWithin htop, ?_⟩
      rintro rfl
      exact isWithin_self _
  | append_singleton segs s ih =>
      rw [ancestors_ofSegments, List.mem_cons, ← ih]
      exact Proper.isWithin_iff_of_parent? ⟨_, rfl⟩ (parent?_ofSegments segs s) htop

end LinkedStore.Path
