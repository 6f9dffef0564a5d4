import LinkedStore.Proofs.Host.Absolute
import LinkedStore.Proofs.Store.Snapshot
import Std.Data.String.ToNat

/-!
# The numbers of versions

The name of a version is taken from the length of the history, while its frozen copy is a node like
any other, which may be removed, and which a checkin of another node may write beside.  Still a
checkin never finds the place of its copy taken, if no node is added at a path with a reserved
segment: where there is a copy of a version, the history of the node counts the version already.

That is kept by every edit.  A removal of a node takes its copies with it, and the copies that a
checkin makes of what lies below a node have no reserved segment behind the version's own.

## Main definitions

* `Path.Unreserved` : a path without reserved segments.
* `Path.Admissible` : a path that is unreserved if it is absolute.
* `VersionHistory.Listed` : the versions of a history are named and placed in order.
* `Workspace.Chronicled` : the histories of a workspace are in order, and count all copies.

## Main statements

* `Workspace.Chronicled.exists_checkin` : a checkin of a versionable node succeeds.
* `Edit.keptAt_chronicled` : edits that add nodes at unreserved paths only keep histories in order.
-/

namespace LinkedStore

namespace Path

/-- A path without empty segments, none of which is reserved for frozen copies. -/
def Unreserved (path : String) : Prop :=
  ∃ segs, path = ofSegments segs ∧ ∀ s ∈ segs, beginsWith "fcr:" s.text = false

variable {path : String}

theorem Unreserved.proper (hpath : Unreserved path) : Proper path :=
  let ⟨segs, hsegs, _⟩ := hpath
  ⟨segs, hsegs⟩

theorem Unreserved.child (hpath : Unreserved path) {s : Segment}
    (hs : beginsWith "fcr:" s.text = false) : Unreserved (Path.child path s.text) := by
  obtain ⟨segs, rfl, hsegs⟩ := hpath
  refine ⟨segs ++ [s], child_ofSegments segs s, fun t ht => ?_⟩
  rcases List.mem_append.1 ht with ht | ht
  · exact hsegs t ht
  · rw [List.mem_singleton.1 ht]
    exact hs

/-- A path that is unreserved if it is absolute.  Nothing can be added at any other path. -/
def Admissible (path : String) : Prop := beginsWith "/" path = true → Unreserved path

theorem beginsWith_ofSegments (segs : List Segment) : beginsWith "/" (ofSegments segs) = true := by
  rw [ofSegments]
  split
  · rfl
  · obtain ⟨s, rest, rfl⟩ := List.exists_cons_of_ne_nil ‹segs ≠ []›
    rw [beginsWith, Text.startsWith_iff, String.toList_ofList]
    exact ⟨_, rfl⟩

/-- A child is absolute only if the path is, apart from the empty path. -/
theorem beginsWith_of_child (hempty : path ≠ "") {segment : String}
    (hchild : beginsWith "/" (Path.child path segment) = true) : beginsWith "/" path = true := by
  rw [beginsWith, Text.startsWith_iff, toList_child] at hchild
  rw [beginsWith, Text.startsWith_iff]
  obtain ⟨rest, hrest⟩ := hchild
  cases hpath : path.toList with
  | nil => exact absurd (String.toList_inj.1 hpath) hempty
  | cons c chars =>
      rw [hpath, childChars] at hrest
      split at hrest
      · rename_i hroot
        exact ⟨[], hroot⟩
      · obtain rfl : c = '/' := (List.cons.inj hrest).1
        exact ⟨chars, rfl⟩

theorem Admissible.content (hpath : Admissible path) :
    Admissible (Path.child path Vocab.Name.content) := by
  intro hchild
  rcases eq_or_ne path "" with rfl | hempty
  · exact Unreserved.child ⟨[], rfl, fun _ hs => absurd hs List.not_mem_nil⟩ (s := .content)
      (by decide)
  · exact (hpath (beginsWith_of_child hempty hchild)).child (s := .content) (by decide)

/-- What is added below a node at a proper path is unreserved. -/
theorem Admissible.unreserved (hpath : Admissible path) {parent : String}
    (hparent : parent? path = some parent) (hproper : Proper parent) : Unreserved path := by
  obtain ⟨segs, rfl⟩ := hproper
  exact hpath (isWithin_root_iff.1
    (isWithin_of_parent? hparent (isWithin_root_iff.2 (beginsWith_ofSegments segs))))

/-- The place of the frozen copy of a version. -/
theorem frozenPath_ofSegments (segs : List Segment) (count : Nat) :
    Workspace.frozenPath (ofSegments segs) ("1." ++ toString count) =
      ofSegments (segs ++ [.holder] ++ [.version count]) := by
  rw [← child_ofSegments, ← child_ofSegments]
  rfl

theorem version_injective : Function.Injective Segment.version := by
  intro i j h
  have htext := congrArg (fun s : Segment => s.text.toList) h
  simp only [Segment.version, String.toList_append, List.append_cancel_left_eq] at htext
  exact Nat.repr_inj.1 (String.toList_inj.1 htext)

theorem holder_ne_version (count : Nat) : Segment.holder ≠ .version count := by
  intro h
  have hhead : (Segment.version count).text.toList.head? = some '1' := by
    rw [Segment.version, String.toList_append]
    rfl
  rw [← h] at hhead
  exact absurd hhead (by decide)

/-- A copy of a version of a node lies below the copy of a version only if it is that copy, where
nothing behind the version is reserved. -/
theorem eq_of_place {segs segs' below : List Segment} {count count' : Nat}
    (h : segs' ++ [.holder] ++ [.version count'] = segs ++ [.holder] ++ [.version count] ++ below)
    (hbelow : ∀ s ∈ below, beginsWith "fcr:" s.text = false) : segs' = segs ∧ count' = count := by
  rcases List.eq_nil_or_concat below with rfl | ⟨front, last, rfl⟩
  · rw [List.append_nil] at h
    obtain ⟨hfront, hlast⟩ := List.append_inj' h rfl
    exact ⟨List.append_cancel_right hfront, version_injective (List.singleton_inj.1 hlast)⟩
  · -- The segment before the last one is the holder, but it is no version and not reserved.
    rw [List.concat_eq_append, ← List.append_assoc] at h
    obtain ⟨hfront, -⟩ := List.append_inj' h rfl
    rcases List.eq_nil_or_concat front with rfl | ⟨front', s, rfl⟩
    · rw [List.append_nil] at hfront
      exact absurd (List.singleton_inj.1 (List.append_inj' hfront rfl).2) (holder_ne_version count)
    · rw [List.concat_eq_append, ← List.append_assoc] at hfront
      have hs := hbelow s (by simp)
      rw [← List.singleton_inj.1 (List.append_inj' hfront rfl).2] at hs
      exact nomatch hs.symm.trans (by decide : beginsWith "fcr:" Segment.holder.text = true)

end Path

/-! ### Histories in order -/

namespace Workspace

/-- The names of versions, in order. -/
def versionName : Nat → String
  | 0 => Vocab.Name.rootVersion
  | count + 1 => "1." ++ toString count

theorem versionName_injective : Function.Injective versionName := by
  have hroot (count : Nat) : Vocab.Name.rootVersion ≠ "1." ++ toString count := by
    intro h
    have hhead : ("1." ++ toString count).toList.head? = some '1' := by
      rw [String.toList_append]
      rfl
    rw [← h] at hhead
    exact absurd hhead (by decide)
  intro i j h
  match i, j with
  | 0, 0 => rfl
  | 0, j + 1 => exact absurd h (hroot j)
  | i + 1, 0 => exact absurd h.symm (hroot i)
  | i + 1, j + 1 =>
      have hversion : Path.Segment.version i = .version j := Path.Segment.ext h
      rw [Path.version_injective hversion]

end Workspace

/-- The version with a label added, if it is of a given name. -/
def Version.relabelled (name label : String) (v : Version) : Version :=
  if v.name = name then { v with labels := v.labels ++ [label] } else v

/-- The history with a label added to the versions of a given name. -/
def VersionHistory.relabelled (name label : String) (history : VersionHistory) : VersionHistory :=
  { history with versions := history.versions.map (Version.relabelled name label) }

@[simp] theorem Version.name_relabelled (v : Version) (name label : String) :
    (v.relabelled name label).name = v.name := by
  rw [relabelled]
  split <;> rfl

@[simp] theorem Version.frozenPath_relabelled (v : Version) (name label : String) :
    (v.relabelled name label).frozenPath = v.frozenPath := by
  rw [relabelled]
  split <;> rfl

/-- A label for a name that no version has changes nothing. -/
theorem VersionHistory.relabelled_of_notMem {history : VersionHistory} {name : String}
    (hname : ∀ v ∈ history.versions, v.name ≠ name) (label : String) :
    history.relabelled name label = history := by
  have hsame : ∀ v ∈ history.versions, v.relabelled name label = v := fun v hv =>
    if_neg (hname v hv)
  rw [relabelled, List.map_congr_left hsame, List.map_id']

/-- The versions of a history of a node: the root version first, and then the versions that have
been made, named in order, each with its copy where its name says. -/
structure VersionHistory.Listed (path : String) (history : VersionHistory) : Prop where
  root : history.rootVersion = Vocab.Name.rootVersion
  pos : 0 < history.versions.length
  names : history.versions.map (·.name) =
    (List.range history.versions.length).map Workspace.versionName
  places : ∀ v ∈ history.versions, v.frozenPath = Workspace.frozenPath path v.name

namespace VersionHistory.Listed

open Workspace

variable {history : VersionHistory} {path : String}

theorem initial (path : String) (created : Instant) :
    (initialHistory path created).Listed path where
  root := rfl
  pos := Nat.one_pos
  names := rfl
  places v hv := by
    rw [List.mem_singleton.1 hv]

/-- The next version has the next name. -/
theorem name_nextVersion (h : history.Listed path) (labels : List String) (created : Instant) :
    (nextVersion history path labels created).name = versionName history.versions.length := by
  obtain ⟨count, hcount⟩ := Nat.exists_eq_succ_of_ne_zero h.pos.ne'
  rw [nextVersion, hcount]
  rfl

theorem concat (h : history.Listed path) (labels : List String) (created : Instant) :
    Listed path
      { history with
        versions := history.versions ++ [nextVersion history path labels created] } where
  root := h.root
  pos := by simp
  names := by
    rw [List.map_append, h.names, List.length_append, List.length_singleton, List.range_succ,
      List.map_append, List.map_singleton, List.map_singleton, h.name_nextVersion]
  places v hv := by
    rcases List.mem_append.1 hv with hv | hv
    · exact h.places v hv
    · rw [List.mem_singleton.1 hv]
      rfl

/-- No two versions share a name. -/
theorem nodup (h : history.Listed path) : (history.versions.map (·.name)).Nodup := by
  rw [h.names]
  exact List.nodup_range.map versionName_injective

/-- A client sees all versions but the first. -/
theorem visible_eq (h : history.Listed path) : history.visible = history.versions.tail := by
  obtain ⟨first, rest, hversions⟩ := List.exists_cons_of_length_pos h.pos
  have hnames := h.names
  have hnodup := h.nodup
  rw [hversions, List.length_cons, List.range_succ_eq_map, List.map_cons, List.map_cons,
    List.cons.injEq] at hnames
  rw [hversions, List.map_cons, List.nodup_cons, hnames.1] at hnodup
  rw [VersionHistory.visible, hversions, List.tail_cons, h.root]
  have hfirst : first.name = Vocab.Name.rootVersion := hnames.1
  rw [List.filter_cons_of_neg (by simpa using hfirst), List.filter_eq_self]
  intro v hv
  rw [bne_iff_ne]
  intro hname
  exact hnodup.1 (List.mem_map.2 ⟨v, hv, hname⟩)

/-- A label is added to the one version of a name. -/
theorem labelFirst_eq_map (h : history.Listed path) (name label : String) :
    { history with versions := labelFirst name label history.versions } =
      history.relabelled name label := by
  have hversions (versions : List Version) (hnodup : (versions.map (·.name)).Nodup) :
      labelFirst name label versions = versions.map fun v => v.relabelled name label := by
    induction versions with
    | nil => rfl
    | cons v rest ih =>
        rw [List.map_cons, List.nodup_cons] at hnodup
        rw [labelFirst, List.map_cons, Version.relabelled]
        by_cases hname : v.name = name
        · rw [if_pos hname, if_pos hname]
          congr 1
          refine (List.map_id' rest).symm.trans (List.map_congr_left fun v' hv' => ?_)
          rw [Version.relabelled, if_neg]
          rintro rfl
          exact hnodup.1 (List.mem_map.2 ⟨v', hv', hname.symm⟩)
        · rw [if_neg hname, if_neg hname, ih hnodup.2]
  rw [VersionHistory.relabelled, hversions _ h.nodup]

theorem relabelled (h : history.Listed path) (name label : String) :
    (history.relabelled name label).Listed path where
  root := h.root
  pos := by rw [VersionHistory.relabelled, List.length_map]; exact h.pos
  names := by
    rw [VersionHistory.relabelled, List.map_map, List.length_map, ← h.names]
    exact List.map_congr_left fun v _ => v.name_relabelled name label
  places v hv := by
    obtain ⟨old, hold, rfl⟩ := List.mem_map.1 hv
    rw [Version.name_relabelled, Version.frozenPath_relabelled, h.places old hold]

end VersionHistory.Listed

/-! ### Workspaces whose histories are in order -/

namespace Workspace

open LinkedStore.Path (Segment ofSegments)

/-- The histories of a workspace belong to stored nodes and are in order, and where there is a copy
of a version, the history of the node counts the version. -/
structure Chronicled (w : Workspace) : Prop where
  filed : w.Filed
  proper : w.AllStored Path.Proper
  owned : ∀ path history, w.history? path = some history → ∃ n, w.node? path = some n
  listed : ∀ path history, w.history? path = some history → history.Listed path
  counted : ∀ segs count n,
    w.node? (ofSegments (segs ++ [.holder] ++ [.version count])) = some n →
    ∃ history, w.history? (ofSegments segs) = some history ∧ count + 1 < history.versions.length

namespace Chronicled

variable {w w' : Workspace} {n : Node} {path : String} {identifiers : Nat → String}
  {labels : List String} {created : Instant} {history : VersionHistory} {v : Version}

theorem isTree (hw : w.Chronicled) : w.IsTree := hw.filed.isTree (hw.proper _ _)

theorem history?_of_free (hw : w.Chronicled) (hfree : w.node? path = none) :
    w.history? path = none :=
  OwnsHistories.history?_of_free hw.owned hfree

/-- The history that a checkin starts from is in order. -/
theorem listed_historyAt (hw : w.Chronicled) (path : String) (created : Instant) :
    (w.historyAt path created).Listed path := by
  rw [historyAt]
  cases hhistory : w.history? path with
  | none => exact .initial path created
  | some history => exact hw.listed path history hhistory

/-- A change that adds no copy of a version and leaves histories alone. -/
theorem of_history (hw : w.Chronicled) (hfiled : w'.Filed) (hproper : w'.AllStored Path.Proper)
    (hhistory : ∀ path, w'.history? path = w.history? path)
    (hstored : ∀ path n, w.node? path = some n → ∃ n', w'.node? path = some n')
    (hcopies : ∀ segs count n,
      w'.node? (ofSegments (segs ++ [.holder] ++ [.version count])) = some n →
      ∃ m, w.node? (ofSegments (segs ++ [.holder] ++ [.version count])) = some m) :
    w'.Chronicled where
  filed := hfiled
  proper := hproper
  owned path history hh := by
    obtain ⟨n, hn⟩ := hw.owned path history ((hhistory path).symm.trans hh)
    exact hstored path n hn
  listed path history hh := hw.listed path history ((hhistory path).symm.trans hh)
  counted segs count n hn := by
    obtain ⟨m, hm⟩ := hcopies segs count n hn
    rw [hhistory]
    exact hw.counted segs count m hm

theorem of_sameNodes (hw : w.Chronicled) (hfiled : w'.Filed) (hnodes : SameNodes w w')
    (hhistory : ∀ path, w'.history? path = w.history? path) : w'.Chronicled := by
  refine hw.of_history hfiled (hw.proper.of_sameNodes hnodes) hhistory (fun path n hn => ?_)
    fun segs count n hn => ?_
  · obtain ⟨n', hn', -⟩ := hnodes.exists_node hn
    exact ⟨n', hn'⟩
  · obtain ⟨m, hm, -⟩ := hnodes.symm.exists_node hn
    exact ⟨m, hm⟩

/-- A node at an unreserved path is no copy. -/
theorem insertNode (hw : w.Chronicled) (hfiled : (w.insertNode n).Filed)
    (hpath : Path.Unreserved n.path) : (w.insertNode n).Chronicled := by
  have hnew {k : String} {m : Node} (hm : (w.insertNode n).node? k = some m) (hk : n.path ≠ k) :
      w.node? k = some m := by
    rwa [node?_insertNode, if_neg hk] at hm
  refine hw.of_history hfiled (hw.proper.of_stored fun k m hm => ?_) (fun _ => rfl)
    (fun _ _ hm => exists_node?_insertNode n hm) fun segs count m hm => ?_
  · by_cases hk : n.path = k
    · exact .inr (hk ▸ hpath.proper)
    · exact .inl ⟨m, hnew hm hk⟩
  · refine ⟨m, hnew hm fun hk => ?_⟩
    obtain ⟨segs', hsegs', hfree⟩ := hpath
    have hsegs := Path.ofSegments_injective (hsegs'.symm.trans hk)
    have hholder := hfree .holder (by rw [hsegs]; simp)
    exact nomatch hholder.symm.trans beginsWith_holder

/-- A removal of a node takes the copies of its versions with it. -/
theorem removeSubtree (hw : w.Chronicled) (path : String) :
    ((w.subtree path).foldl dropNode w).Chronicled := by
  have hleft {k : String} {m : Node}
      (hm : ((w.subtree path).foldl dropNode w).node? k = some m) :
      Path.isWithin path k = false ∧ w.node? k = some m := by
    rw [node?_removeSubtree] at hm
    by_cases hk : Path.isWithin path k = true
    · rw [if_pos hk] at hm
      exact nomatch hm
    · rw [if_neg hk] at hm
      exact ⟨Bool.eq_false_iff.2 hk, hm⟩
  have hhistory (k : String) (hk : Path.isWithin path k = false) :
      ((w.subtree path).foldl dropNode w).history? k = w.history? k := by
    rw [history?_dropNodes, if_neg fun hmem => ?_]
    rw [(mem_subtree.1 hmem).2] at hk
    exact nomatch hk
  have hkept {k : String} {history : VersionHistory}
      (hh : ((w.subtree path).foldl dropNode w).history? k = some history) :
      k ∉ w.subtree path ∧ w.history? k = some history := by
    rw [history?_dropNodes] at hh
    split at hh
    · exact nomatch hh
    · rename_i hk
      exact ⟨hk, hh⟩
  refine
    { filed := hw.filed.removeSubtree path
      proper := hw.proper.of_stored fun k m hm => .inl ⟨m, (hleft hm).2⟩
      owned := fun k history hh => ?_
      listed := fun k history hh => hw.listed k history (hkept hh).2
      counted := fun segs count m hm => ?_ }
  · obtain ⟨hmem, hh⟩ := hkept hh
    obtain ⟨n, hn⟩ := hw.owned k history hh
    exact ⟨n, by rw [node?_dropNodes, if_neg hmem, hn]⟩
  · obtain ⟨hwithin, hm⟩ := hleft hm
    rw [hhistory]
    · exact hw.counted segs count m hm
    · -- What lies within the path takes its copies along.
      rw [Bool.eq_false_iff] at hwithin ⊢
      refine fun h => hwithin ?_
      exact Path.isWithin_of_parent? (Path.parent?_ofSegments _ _)
        (Path.isWithin_of_parent? (Path.parent?_ofSegments _ _) h)

/-- A history that is as long as the one before takes its place. -/
theorem insertHistory (hw : w.Chronicled) (hold : w.history? path = some history)
    {history' : VersionHistory} (hlisted : history'.Listed path)
    (hlength : history'.versions.length = history.versions.length) :
    Chronicled { w with histories := w.histories.insert path history' } := by
  have hhistory (k : String) :
      Workspace.history? { w with histories := w.histories.insert path history' } k =
        if path = k then some history' else w.history? k := Table.getElem?_insert ..
  refine
    { filed := hw.filed.of_tables rfl rfl
      proper := hw.proper.of_sameNodes (sameNodes_of_nodes_eq rfl)
      owned := fun k other hh => ?_
      listed := fun k other hh => ?_
      counted := fun segs count m hm => ?_ }
  · rw [hhistory] at hh
    split at hh
    · rename_i hk
      exact hk ▸ hw.owned path history hold
    · exact hw.owned k other hh
  · rw [hhistory] at hh
    split at hh
    · rename_i hk
      rw [← hk, ← Option.some.inj hh]
      exact hlisted
    · exact hw.listed k other hh
  · obtain ⟨other, hother, hcount⟩ := hw.counted segs count m hm
    rw [hhistory]
    split
    · rename_i hk
      rw [← hk, hold] at hother
      exact ⟨history', rfl, by rwa [hlength, Option.some.inj hother]⟩
    · exact ⟨other, hother, hcount⟩

/-! ### Checkins -/

/-- The place for the copy of the next version is free. -/
theorem node?_nextVersion (hw : w.Chronicled) (hn : w.node? path = some n) (labels : List String)
    (created : Instant) :
    w.node? (nextVersion (w.historyAt path created) path labels created).frozenPath = none := by
  obtain ⟨segs, rfl⟩ := hw.proper path n hn
  rw [Option.eq_none_iff_forall_ne_some]
  intro m hm
  have hlisted := hw.listed_historyAt (ofSegments segs) created
  rw [nextVersion, Path.frozenPath_ofSegments] at hm
  obtain ⟨history, hhistory, hcount⟩ := hw.counted segs _ m hm
  have hsame : w.historyAt (ofSegments segs) created = history := by
    rw [historyAt, hhistory, Option.getD_some]
  have hpos := hlisted.pos
  rw [hsame] at hcount hpos
  omega

/-- **A checkin of a versionable node succeeds**, with the next version. -/
theorem exists_checkin (hw : w.Chronicled) (hn : w.node? path = some n)
    (hversionable : n.declares Vocab.Name.mixVersionable = true) (identifiers : Nat → String)
    (labels : List String) (created : Instant) :
    ∃ w', (checkin identifiers path labels created).run w =
      .ok (nextVersion (w.historyAt path created) path labels created) w' := by
  have hfree : (w.withVersion path labels created).nodes.contains
      (nextVersion (w.historyAt path created) path labels created).frozenPath = false :=
    contains_eq_false_iff.2 (hw.node?_nextVersion hn labels created)
  have hparent : Path.parent?
      (nextVersion (w.historyAt path created) path labels created).frozenPath =
        some (Path.child path Vocab.Name.versionsHolder) :=
    Path.parent?_child (Path.child_ne_empty path _) (.version _)
  rw [checkin_run, hn]
  simp only [hversionable, if_true, map_eq_pure_bind, EStateM.run_bind, freeze_run, hfree,
    Bool.false_eq_true, if_false, hparent]
  exact ⟨_, rfl⟩

/-- A checkin makes the next version, or is refused before it changes anything. -/
theorem checkin_cases (hw : w.Chronicled) (identifiers : Nat → String) (path : String)
    (labels : List String) (created : Instant) :
    (∃ n w', w.node? path = some n ∧ (checkin identifiers path labels created).run w =
      .ok (nextVersion (w.historyAt path created) path labels created) w') ∨
      ∃ error, (checkin identifiers path labels created).run w = .error error w := by
  cases hn : w.node? path with
  | none => exact .inr ⟨_, by rw [checkin_run, hn]⟩
  | some n =>
      by_cases hversionable : n.declares Vocab.Name.mixVersionable = true
      · obtain ⟨w', hrun⟩ := hw.exists_checkin hn hversionable identifiers labels created
        exact .inl ⟨n, w', rfl, hrun⟩
      · refine .inr ⟨.repository (.notVersionable path), ?_⟩
        rw [checkin_run, hn]
        simp only [hversionable, Bool.false_eq_true, if_false]

/-- What a checkin leaves is in order. -/
theorem of_snapshot (hw : w.Chronicled) (hfiled : w'.Filed) (hproper : w'.AllStored Path.Proper)
    (hn : w.node? path = some n)
    (hsnapshot : Snapshot identifiers path labels created v w w') : w'.Chronicled := by
  have hlisted := (hw.listed_historyAt path created).concat labels created
  rw [← hsnapshot.version] at hlisted
  obtain ⟨segs, rfl⟩ := hw.proper path n hn
  refine ⟨hfiled, hproper, fun k history hh => ?_, fun k history hh => ?_,
    fun segs' count m hm => ?_⟩
  · by_cases hk : k = ofSegments segs
    · exact ⟨n, hsnapshot.kept k n (hk ▸ hn)⟩
    · rw [hsnapshot.history k hk] at hh
      obtain ⟨m, hm⟩ := hw.owned k history hh
      exact ⟨m, hsnapshot.kept k m hm⟩
  · by_cases hk : k = ofSegments segs
    · subst hk
      rw [hsnapshot.ownHistory] at hh
      rw [← Option.some.inj hh]
      exact hlisted
    · rw [hsnapshot.history k hk] at hh
      exact hw.listed k history hh
  · have hown (hsame : segs' = segs) {length : Nat}
        (hlength : length ≤ (w.historyAt (ofSegments segs) created).versions.length) :
        ∃ history, w'.history? (ofSegments segs') = some history ∧
          length < history.versions.length := by
      rw [hsame, hsnapshot.ownHistory]
      exact ⟨_, rfl, by simpa using Nat.lt_succ_of_le hlength⟩
    cases hold : w.node? (ofSegments (segs' ++ [.holder] ++ [.version count])) with
    | some old =>
        obtain ⟨history, hhistory, hcount⟩ := hw.counted segs' count old hold
        by_cases hsame : segs' = segs
        · refine hown hsame (Nat.le_of_lt ?_)
          rwa [historyAt, ← hsame, hhistory]
        · rw [hsnapshot.history _ (mt (@Path.ofSegments_injective _ _) hsame)]
          exact ⟨history, hhistory, hcount⟩
    | none =>
        rcases hsnapshot.new _ m hm hold with ⟨hholder, -⟩ | ⟨names, q, hq, hplace⟩
        · have hlast := Path.ofSegments_injective
            (hholder.trans (Path.child_ofSegments segs .holder))
          exact absurd (List.singleton_inj.1 (List.append_inj' hlast rfl).2).symm
            (Path.holder_ne_version count)
        · obtain ⟨below, rfl, -, -, hfree⟩ := hw.isTree.of_below hq
          rw [hsnapshot.version, nextVersion, Path.frozenPath_ofSegments,
            Path.descend_ofSegments] at hplace
          obtain ⟨hsame, rfl⟩ := Path.eq_of_place (Path.ofSegments_injective hplace) hfree
          have hpos := (hw.listed_historyAt (ofSegments segs) created).pos
          exact hown hsame (by omega)

/-- A workspace without histories is in order, if it holds no copies of versions. -/
theorem of_root (hfiled : w.Filed) (hroot : w.AllStored (· = "/"))
    (hhistory : ∀ path, w.history? path = none) : w.Chronicled where
  filed := hfiled
  proper path n hn := ⟨[], hroot path n hn⟩
  owned path _ hh := nomatch (hhistory path).symm.trans hh
  listed path _ hh := nomatch (hhistory path).symm.trans hh
  counted segs count n hn := by
    have hsegs := congrArg List.length
      (@Path.ofSegments_injective _ [] (hroot _ n hn))
    simp at hsegs

end Chronicled

theorem chronicled_empty : empty.Chronicled :=
  .of_root filed_empty allStored_empty fun _ => Std.ExtTreeMap.getElem?_empty

theorem chronicled_withRoot (identifier : String) : (withRoot identifier).Chronicled :=
  .of_root (filed_withRoot identifier) (allStored_withRoot (Q := (· = "/")) rfl identifier)
    fun _ => Std.ExtTreeMap.getElem?_empty

end Workspace

/-! ### What edits keep -/

namespace Edit

open Workspace

theorem leads_checkin_chronicled (identifiers : Nat → String) (path : String)
    (labels : List String) (created : Instant) :
    Leads Chronicled Chronicled (checkin identifiers path labels created) := by
  intro w hw
  have hfiled := kept_filed.checkin identifiers path labels created w hw.filed
  have hproper := (keptAt_proper.checkin identifiers path labels created w
    ⟨hw.filed, hw.proper⟩).2
  rcases hw.checkin_cases identifiers path labels created with ⟨n, w', hn, hrun⟩ | ⟨error, hrun⟩
  · rw [leftBy, hrun] at hfiled hproper ⊢
    exact hw.of_snapshot hfiled hproper hn
      (hw.filed.snapshot_of_checkin (hw.proper _ _) hrun)
  · rw [leftBy, hrun]
    exact hw

/-- **Histories stay in order**, whatever is done to a workspace but adding nodes at absolute paths
with reserved or empty segments. -/
theorem keptAt_chronicled : KeptAt Path.Admissible (fun _ => True) Chronicled where
  content path hpath := hpath.content
  addNodeAt identifier path primaryType hpath := by
    refine leads_addNodeAt (fun _ => id) fun w parent above hw hparent habove _ => ?_
    refine hw.insertNode (hw.filed.insertNode (Path.ne_empty_of_parent? hparent)
      fun parent' hparent' => ⟨above, ?_⟩)
      (hpath.unreserved hparent (hw.proper parent above habove))
    rw [← Option.some.inj (hparent.symm.trans hparent'), habove]
  changeMixins path change := leads_changeMixins (fun _ => id) fun _ _ hw hn =>
    hw.of_sameNodes (hw.filed.changeMixins hn _) (sameNodes_changeMixins hn _) fun _ => rfl
  removeNode path _ := leads_removeNode (fun _ => id) fun _ _ hw _ => hw.removeSubtree path
  putProperty p := leads_putProperty (fun _ => id) fun _ _ hw hn =>
    hw.of_sameNodes (hw.filed.holdProperty hn) (sameNodes_of_nodes_eq rfl) fun _ => rfl
  removeProperty path name := leads_removeProperty (fun _ => id) fun _ hw =>
    hw.of_sameNodes (hw.filed.withoutProperty path name)
      (fun k => by rw [node?_withoutProperty]) fun k => history?_withoutProperty ..
  checkin := leads_checkin_chronicled
  addVersionLabel path version label := leads_addVersionLabel (fun _ => id)
    fun w history hw hhistory => by
      have hlisted := hw.listed path history hhistory
      rw [hlisted.labelFirst_eq_map]
      exact hw.insertHistory hhistory (hlisted.relabelled version label) (List.length_map ..)

end Edit

end LinkedStore
