import LinkedStore.Vocab

/-!
# Internal paths

Nodes are addressed by paths of segments with slashes before them; the root is a single slash.
Paths are taken as they come: a path may hold empty segments, and its operations are defined on
every text.

## Main definitions

* `Path.name` : the segment behind the last slash.
* `Path.parent?` : the path above; the root has none.
* `Path.child` : the path with a segment added.
* `Path.ancestors` : the chain of parents.
* `Path.isInternalName` : whether a segment names a node of the store's own.

## Main statements

* `Path.length_parent_lt` : a parent is strictly shorter, so every chain of parents ends.
* `Path.ancestors_eq` : the chain of parents starts with the parent and goes on with its chain.
-/

namespace LinkedStore.Path

/-! ### On lists of characters -/

/-- The text before the last slash, slashes at the end aside.  A parent of no characters is the
root. -/
def parentChars (path : List Char) : Option (List Char) :=
  if path = ['/'] then none
  else
    match Text.cutLast '/' (Text.trimEnd '/' path) with
    | some ([], _) => some ['/']
    | some (before, _) => some before
    | none => none

/-- The text behind the last slash. -/
def nameChars (path : List Char) : List Char := Text.lastPiece '/' path

/-- A path with a segment added. -/
def childChars (parent name : List Char) : List Char :=
  if parent = ['/'] then '/' :: name else parent ++ '/' :: name

theorem length_trimEnd_le (mark : Char) (text : List Char) :
    (Text.trimEnd mark text).length ≤ text.length := by
  have h := (List.dropWhile_sublist (decide <| · = mark) (l := text.reverse)).length_le
  simpa [Text.trimEnd] using h

/-- A parent is strictly shorter than its child. -/
theorem length_parentChars_lt {path parent : List Char} (h : parentChars path = some parent) :
    parent.length < path.length := by
  rw [parentChars] at h
  split at h
  · exact absurd h (by simp)
  · rename_i hroot
    have htrim := length_trimEnd_le '/' path
    split at h
    · rename_i behind hcut
      have hlen := congrArg List.length (Text.cutLast_eq_some_iff.1 hcut).1
      simp only [Option.some.injEq] at h
      subst h
      match path, hroot with
      | [], _ => simp [Text.trimEnd, Text.cutLast] at hcut
      | [c], hroot =>
          by_cases hc : c = '/'
          · exact absurd (by rw [hc]) hroot
          · simp [Text.trimEnd, Text.cutLast, hc] at hcut
      | _ :: _ :: _, _ => simp
    · rename_i before behind _ hcut
      have hlen := congrArg List.length (Text.cutLast_eq_some_iff.1 hcut).1
      simp only [Option.some.injEq] at h
      subst h
      simp only [List.length_append, List.length_cons] at hlen
      omega
    · exact absurd h (by simp)

/-! ### On text -/

/-- The last segment of a path; empty for the root. -/
def name (path : String) : String := String.ofList (nameChars path.toList)

/-- The path above; the root has none. -/
def parent? (path : String) : Option String := (parentChars path.toList).map String.ofList

/-- The path with a segment added. -/
def child (parent name : String) : String :=
  String.ofList (childChars parent.toList name.toList)

/-- The segments of a path. -/
def segments (path : String) : List String := (Text.pieces '/' path.toList).map String.ofList

/-- The number of segments below the root. -/
def depth (path : String) : Nat := ((segments path).filter fun s => s != "").length

/-- A parent is strictly shorter than its child, so every chain of parents ends. -/
theorem length_parent_lt {path parent : String} (h : parent? path = some parent) :
    parent.length < path.length := by
  obtain ⟨chars, hchars, rfl⟩ := Option.map_eq_some_iff.1 h
  rw [String.length_ofList, ← String.length_toList]
  exact length_parentChars_lt hchars

/-- The first `count` paths of the chain of parents. -/
def ancestorsUpTo : Nat → String → List String
  | 0, _ => []
  | count + 1, path =>
      match parent? path with
      | some parent => parent :: ancestorsUpTo count parent
      | none => []

/-- The chain of parents of a path, from its own parent on. -/
def ancestors (path : String) : List String := ancestorsUpTo path.length path

/-- Two counts that both reach past the length of a path give the same chain. -/
theorem ancestorsUpTo_eq {m n : Nat} {path : String} (hm : path.length ≤ m)
    (hn : path.length ≤ n) : ancestorsUpTo m path = ancestorsUpTo n path := by
  induction m generalizing n path with
  | zero =>
      cases n with
      | zero => rfl
      | succ n =>
          cases hparent : parent? path with
          | none => simp [ancestorsUpTo, hparent]
          | some parent => exact absurd (length_parent_lt hparent) (by omega)
  | succ m ih =>
      cases hparent : parent? path with
      | none => cases n <;> simp [ancestorsUpTo, hparent]
      | some parent =>
          have hlt := length_parent_lt hparent
          cases n with
          | zero => omega
          | succ n =>
              have hrest : ancestorsUpTo m parent = ancestorsUpTo n parent :=
                ih (by omega) (by omega)
              simp only [ancestorsUpTo, hparent, hrest]

/-- The chain of parents starts with the parent and goes on with its chain. -/
theorem ancestors_eq (path : String) :
    ancestors path =
      match parent? path with
      | some parent => parent :: ancestors parent
      | none => [] := by
  rw [ancestors, ancestorsUpTo_eq (Nat.le_refl _) (Nat.le_succ _), ancestorsUpTo]
  cases hparent : parent? path with
  | none => rfl
  | some parent =>
      have hlt := length_parent_lt hparent
      simp only [ancestors]
      rw [ancestorsUpTo_eq (Nat.le_of_lt hlt) (Nat.le_refl _)]

/-- Whether a text begins with another. -/
def beginsWith (lead text : String) : Bool := Text.startsWith lead.toList text.toList

/-- Whether a segment names a node of the store's own: the holder of hash fragments, or a segment
in one of the two reserved name spaces. -/
def isInternalName (name : String) : Bool :=
  name == Vocab.Name.hashHolder || beginsWith "jcr:" name || beginsWith "fcr:" name

/-- Whether a path is another path or lies below it. -/
def isWithin (top path : String) : Bool := path == top || beginsWith (child top "") path

end LinkedStore.Path
