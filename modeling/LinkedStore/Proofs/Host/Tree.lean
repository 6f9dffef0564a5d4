import LinkedStore.Proofs.Host.Identified
import LinkedStore.Proofs.Store.FreezeLoop

/-!
# The tree of a workspace

Whatever paths the mutations of a run are given, all that is stored hangs together: nothing but the
root is without a parent, and parents are stored with their children.  So either the root is stored
or nothing is.  The root goes only with a mutation that removes it.

That a path is its parent's child under its own name is more than the edits look for.  It holds of
all stored paths if it holds of those at which nodes are added.  Then no stored path has an empty
segment, and the children of a node have different names.

## Main definitions

* `Path.Composed` : a path is its parent's child under its own name.
* `Workspace.AllStored` : all stored paths have a property.
* `Workspace.Rooted` : what is stored hangs together.
* `Workspace.Named` : the children of a node are told apart by their names.

## Main statements

* `Edit.keptAt_allStored` : a property of paths that passes on to children and copies is kept.
* `Edit.keptAt_root` : the root is kept by edits that remove other nodes only.
* `Host.tree_of_holds` : what holds of every state of a host.
-/

namespace LinkedStore

/-! ### Paths and their parents -/

namespace Path

/-- A path that has a parent is the parent's child under its own name. -/
def Composed (path : String) : Prop := ∀ parent ∈ parent? path, child parent (name path) = path

instance (path : String) : Decidable (Composed path) :=
  inferInstanceAs (Decidable (∀ parent ∈ parent? path, child parent (name path) = path))

/-- A path is the root or has a parent. -/
def Hung (path : String) : Prop := path = "/" ∨ ∃ parent, parent? path = some parent

variable {path parent segment : String}

theorem Proper.composed (hpath : Proper path) : Composed path := by
  intro parent hparent
  obtain ⟨segs, s, rfl, rfl⟩ := hpath.exists_segment hparent
  rw [name_ofSegments, child_ofSegments]

/-- A path is not a child without a name of its own parent. -/
theorem child_empty_ne_of_parent? (hparent : parent? path = some parent) :
    child parent "" ≠ path := by
  rintro rfl
  by_cases hempty : parent = ""
  · rw [hempty] at hparent
    exact nomatch (show parent? (child "" "") = none by decide).symm.trans hparent
  · by_cases hroot : parent = "/"
    · rw [hroot] at hparent
      exact nomatch (show parent? (child "/" "") = none by decide).symm.trans hparent
    · rw [parent?_child_empty hempty hroot] at hparent
      exact absurd (length_parent_lt hparent) (Nat.lt_irrefl _)

/-- A composed path below a proper one is proper. -/
theorem Composed.proper (hpath : Composed path) (hparent : parent? path = some parent)
    (hproper : Proper parent) : Proper path := by
  have hchild := hpath parent hparent
  have hname : name path ≠ "" := by
    intro hempty
    rw [hempty] at hchild
    exact child_empty_ne_of_parent? hparent hchild
  rw [← hchild]
  exact hproper.child ⟨name path, hname, noSlash_name path⟩

/-- The name of a child is the segment that it was made with. -/
theorem name_child (path : String) (s : Segment) : name (child path s.text) = s.text := by
  obtain ⟨before, hbefore⟩ : ∃ before : List Char,
      childChars path.toList s.text.toList = before ++ '/' :: s.text.toList := by
    rw [childChars]
    split
    · exact ⟨[], rfl⟩
    · exact ⟨path.toList, rfl⟩
  have hcut : Text.cutLast '/' (before ++ '/' :: s.text.toList) =
      some (before, s.text.toList) := Text.cutLast_eq_some_iff.2 ⟨rfl, s.noSlash⟩
  rw [name, toList_child, hbefore, nameChars, Text.lastPiece, hcut, String.ofList_toList]

theorem composed_child (path : String) (s : Segment) : Composed (child path s.text) := by
  intro parent hparent
  rw [name_child]
  rcases eq_or_ne path "" with rfl | hpath
  · -- The children of the empty path are those of the root.
    have hroot : child "" s.text = child "/" s.text := rfl
    rw [hroot, parent?_child (by decide)] at hparent
    rw [← Option.some.inj hparent, hroot]
  · rw [parent?_child hpath] at hparent
    rw [Option.some.inj hparent]

/-- A child of the root or of a path with a parent is so itself, whatever its name. -/
theorem Hung.child (hpath : Hung path) (hname : '/' ∉ segment.toList) :
    Hung (Path.child path segment) := by
  have hne : path ≠ "" := by
    rcases hpath with rfl | ⟨parent, hparent⟩
    · decide
    · exact ne_empty_of_parent? hparent
  by_cases hempty : segment = ""
  · subst hempty
    by_cases hroot : path = "/"
    · subst hroot
      exact .inl rfl
    · obtain ⟨parent, hparent⟩ := hpath.resolve_left hroot
      exact .inr ⟨parent, by rw [parent?_child_empty hne hroot, hparent]⟩
  · exact .inr ⟨path, parent?_child hne ⟨segment, hempty, hname⟩⟩

end Path

namespace Workspace

variable {w w' state : Workspace} {n : Node} {path holder target identifier k : String}
  {Q : String → Prop}

/-- All stored paths have a property. -/
def AllStored (Q : String → Prop) (w : Workspace) : Prop := ∀ path n, w.node? path = some n → Q path

/-- All that is stored hangs together: either the root is stored or nothing is, and with every
other node its parent is stored. -/
structure Rooted (w : Workspace) : Prop where
  root : (∃ root, w.node? "/" = some root) ∨ ∀ path, w.node? path = none
  parent : ∀ path n, w.node? path = some n → path ≠ "/" →
    ∃ parent above, Path.parent? path = some parent ∧ w.node? parent = some above

/-- Every stored path but that of the root is its parent's child under its own name, so that no two
children of a node share a name. -/
structure Named (w : Workspace) : Prop where
  child : ∀ path n, w.node? path = some n → path ≠ "/" →
    ∃ parent, Path.parent? path = some parent ∧ Path.child parent (Path.name path) = path
  apart : ∀ path, ∀ n ∈ w.children path, ∀ n' ∈ w.children path, n.name = n'.name → n = n'

/-! ### What a freeze stores -/

/-- A freeze stores a holder and the listed copies. -/
theorem stored_withCopies {identifiers : Nat → String}
    (hn : (w.withCopies identifiers path target (w.withHolder identifier holder)).node? k =
      some n) :
    (∃ m, w.node? k = some m) ∨ k = holder ∨ ∃ c ∈ w.copies w.nodes.size path target, k = c.2 := by
  by_cases hcopy : k ∈ (w.copies w.nodes.size path target).map Prod.snd
  · obtain ⟨c, hc, rfl⟩ := List.mem_map.1 hcopy
    exact .inr (.inr ⟨c, hc, rfl⟩)
  · have hsame := (differsAt_storeCopies w identifiers 0 _ (w.withHolder identifier holder)).node
      k hcopy
    rcases (node?_withHolder w identifier holder k).1 ⟨n, hsame.symm.trans hn⟩ with hk | hk
    · exact .inr (.inl hk)
    · exact .inl hk

/-- What is stored stays stored when copies are. -/
theorem exists_node?_storeCopies (identifiers : Nat → String) (number : Nat)
    (items : List (String × String)) (hn : ∃ n, state.node? k = some n) :
    ∃ n, (w.storeCopies identifiers number items state).node? k = some n := by
  induction items generalizing number state with
  | nil => exact hn
  | cons item items ih =>
      rw [storeCopies_cons]
      refine ih (number + 1) ?_
      cases hlive : w.node? item.1 with
      | none =>
          rw [storeFrozen, hlive]
          exact hn
      | some live => exact (node?_storeFrozen hlive _ _ _ _).2 (.inr hn)

/-- What passes from the copy of a node to the copies of its children holds of the places of all
copies. -/
theorem Filed.of_mem_copies (hw : w.Filed) (hstored : w.AllStored Q)
    (hcopy : ∀ source parent target, Path.parent? source = some parent → Q source → Q target →
      Q (Path.child target (Path.name source)))
    {fuel : Nat} {source : String} (htarget : Q target) {c : String × String}
    (hc : c ∈ w.copies fuel source target) : Q c.2 := by
  induction fuel generalizing source target with
  | zero =>
      rw [copies, List.mem_singleton] at hc
      rwa [hc]
  | succ fuel ih =>
      rw [copies, List.mem_cons] at hc
      rcases hc with rfl | hc
      · exact htarget
      · obtain ⟨child, hchild, hc⟩ := List.mem_flatMap.1 hc
        rw [List.mem_reverse, List.mem_filter] at hchild
        obtain ⟨hnode, hparent⟩ := node?_of_mem_children hw.path hchild.1
        exact ih (hcopy child.path source target hparent (hstored _ child hnode) htarget) hc

/-! ### Trees -/

theorem AllStored.of_stored (hw : w.AllStored Q)
    (h : ∀ k m, w'.node? k = some m → (∃ m, w.node? k = some m) ∨ Q k) : w'.AllStored Q := by
  intro k m hm
  rcases h k m hm with ⟨m, hm⟩ | hk
  · exact hw k m hm
  · exact hk

theorem AllStored.of_sameNodes (hw : w.AllStored Q) (hnodes : SameNodes w w') :
    w'.AllStored Q := by
  refine hw.of_stored fun k m hm => .inl ?_
  obtain ⟨n, hn, -⟩ := hnodes.symm.exists_node hm
  exact ⟨n, hn⟩

theorem allStored_empty : empty.AllStored Q := fun _ _ hn => nomatch (node?_empty _).symm.trans hn

theorem node?_withRoot (identifier path : String) :
    (withRoot identifier).node? path =
      if "/" = path then
        some ⟨"/", identifier, Vocab.Name.modeRoot, [Vocab.Name.fedoraContainer]⟩
      else none := by
  rw [withRoot, node?_insertNode, node?_empty]

theorem allStored_withRoot (hroot : Q "/") (identifier : String) :
    (withRoot identifier).AllStored Q := by
  intro path n hn
  rw [node?_withRoot] at hn
  split at hn
  · rename_i hpath
    exact hpath ▸ hroot
  · exact nomatch hn

/-- Above every stored node there is the root, since parents get shorter on the way up. -/
theorem Filed.root_of_stored (hw : w.Filed) (hhung : w.AllStored Path.Hung)
    (hn : w.node? path = some n) : ∃ root, w.node? "/" = some root := by
  induction hlength : path.length using Nat.strong_induction_on generalizing path n with
  | _ length ih =>
      rcases hhung path n hn with rfl | ⟨parent, hparent⟩
      · exact ⟨n, hn⟩
      · obtain ⟨above, habove⟩ := hw.parent hn hparent
        exact ih parent.length (hlength ▸ Path.length_parent_lt hparent) habove rfl

theorem Filed.rooted (hw : w.Filed) (hhung : w.AllStored Path.Hung) : w.Rooted where
  root := by
    by_cases hstored : ∃ path n, w.node? path = some n
    · obtain ⟨path, n, hn⟩ := hstored
      exact .inl (hw.root_of_stored hhung hn)
    · refine .inr fun path => Option.eq_none_iff_forall_ne_some.2 fun n hn => ?_
      exact hstored ⟨path, n, hn⟩
  parent path n hn hroot := by
    obtain ⟨parent, hparent⟩ := (hhung path n hn).resolve_left hroot
    obtain ⟨above, habove⟩ := hw.parent hn hparent
    exact ⟨parent, above, hparent, habove⟩

/-- Where all stored paths are proper, children are told apart by their names. -/
theorem Filed.named (hw : w.Filed) (hhung : w.AllStored Path.Hung)
    (hproper : w.AllStored Path.Proper) : w.Named where
  child path n hn hroot := by
    obtain ⟨parent, hparent⟩ := (hhung path n hn).resolve_left hroot
    exact ⟨parent, hparent, (hproper path n hn).composed parent hparent⟩
  apart path n hn n' hn' hname := by
    obtain ⟨hnode, hparent⟩ := node?_of_mem_children hw.path hn
    obtain ⟨hnode', hparent'⟩ := node?_of_mem_children hw.path hn'
    have hpath : n.path = n'.path := by
      rw [← (hproper _ n hnode).composed path hparent,
        ← (hproper _ n' hnode').composed path hparent']
      exact congrArg (Path.child path) hname
    rw [hpath, hnode'] at hnode
    exact (Option.some.inj hnode).symm

end Workspace

/-! ### What edits keep -/

namespace Edit

open Workspace

variable {α : Type} {P R : Workspace → Prop} {Q added : String → Prop}

theorem leads_and {e : Edit α} (hP : Leads P P e) (hR : Leads (fun w => P w ∧ R w) R e) :
    Leads (fun w => P w ∧ R w) (fun w => P w ∧ R w) e :=
  fun w hw => ⟨hP w hw.1, hR w hw⟩

/-- **What passes on to children and copies holds of all stored paths**, if it holds of those at
which nodes are added. -/
theorem keptAt_allStored
    (hcontent : ∀ path, added path → added (Path.child path Vocab.Name.content))
    (hadded : ∀ path parent, added path → Path.parent? path = some parent → Q parent → Q path)
    (hchild : ∀ path (s : Path.Segment), path ≠ "" → Q path → Q (Path.child path s.text))
    (hcopy : ∀ source parent target, Path.parent? source = some parent → Q source → Q target →
      Q (Path.child target (Path.name source))) :
    KeptAt added (fun _ => True) (fun w => w.Filed ∧ w.AllStored Q) where
  content := hcontent
  addNodeAt identifier path primaryType hpath :=
    leads_and (kept_filed.addNodeAt identifier path primaryType) <|
      leads_addNodeAt (fun _ hw => hw.2) fun w parent above ⟨_, hw⟩ hparent habove _ =>
        hw.of_stored fun k m hm => by
          rw [node?_insertNode_plain] at hm
          by_cases hk : path = k
          · exact .inr (hk ▸ hadded path parent hpath hparent (hw parent above habove))
          · rw [if_neg hk] at hm
            exact .inl ⟨m, hm⟩
  changeMixins path change :=
    leads_and (kept_filed.changeMixins path change) <|
      leads_changeMixins (fun _ hw => hw.2) fun _ _ hw hn =>
        hw.2.of_sameNodes (sameNodes_changeMixins hn _)
  removeNode path _ :=
    leads_and (kept_filed.removeNode path) <|
      leads_removeNode (fun _ hw => hw.2) fun w _ hw _ => hw.2.of_stored fun k m hm => by
        rw [node?_removeSubtree] at hm
        split at hm
        · exact nomatch hm
        · exact .inl ⟨m, hm⟩
  putProperty p :=
    leads_and (kept_filed.putProperty p) <|
      leads_putProperty (fun _ hw => hw.2) fun _ _ hw _ =>
        hw.2.of_sameNodes (sameNodes_of_nodes_eq rfl)
  removeProperty path name :=
    leads_and (kept_filed.removeProperty path name) <|
      leads_removeProperty (fun _ hw => hw.2) fun _ hw =>
        hw.2.of_sameNodes fun k => by rw [node?_withoutProperty]
  checkin identifiers path labels created := by
    refine leads_and (kept_filed.checkin identifiers path labels created) ?_
    refine leads_checkin
      (Q := fun w => (w.Filed ∧ w.AllStored Q) ∧ path ≠ "" ∧ Q path) (fun _ hw => hw.2)
      (fun w n hw hn => ⟨⟨hw.1.of_tables rfl rfl, hw.2.of_sameNodes (sameNodes_of_nodes_eq rfl)⟩,
        hw.1.ne_empty hn, hw.2 path n hn⟩) fun count => ?_
    refine leads_freeze_version (fun _ hw => hw.1.2) fun w ⟨hw, hempty, hpath⟩ => ?_
    have hholder := hchild path .holder hempty hpath
    refine hw.2.of_stored fun k m hm => ?_
    rcases stored_withCopies hm with hold | rfl | ⟨c, hc, rfl⟩
    · exact .inl hold
    · exact .inr hholder
    · exact .inr (hw.1.of_mem_copies hw.2 hcopy
        (hchild _ (.version count) (Path.child_ne_empty _ _) hholder) hc)
  addVersionLabel path version label :=
    leads_and (kept_filed.addVersionLabel path version label) <|
      leads_addVersionLabel (fun _ hw => hw.2) fun _ _ hw _ =>
        hw.2.of_sameNodes (sameNodes_of_nodes_eq rfl)

/-- Nothing but the root is stored without a parent. -/
theorem keptAt_hung :
    KeptAt (fun _ => True) (fun _ => True) (fun w => w.Filed ∧ w.AllStored Path.Hung) :=
  keptAt_allStored (fun _ => id) (fun _ parent _ hparent _ => .inr ⟨parent, hparent⟩)
    (fun _ s _ hpath => hpath.child s.noSlash)
    fun source _ _ _ _ htarget => htarget.child (Path.noSlash_name source)

/-- Adding nodes at composed paths only keeps all stored paths proper. -/
theorem keptAt_proper :
    KeptAt Path.Composed (fun _ => True) (fun w => w.Filed ∧ w.AllStored Path.Proper) := by
  refine keptAt_allStored (fun path _ => Path.composed_child path .content)
    (fun _ _ hpath hparent habove => hpath.proper hparent habove)
    (fun _ s _ hpath => hpath.child s) fun source parent target hparent hsource htarget => ?_
  obtain ⟨segs, s, -, rfl⟩ := hsource.exists_segment hparent
  rw [Path.name_ofSegments]
  exact htarget.child s

/-- The root is kept by edits that remove other nodes only. -/
theorem keptAt_root : KeptAt (fun _ => True) (· ≠ "/")
    (fun w => w.Filed ∧ ∃ root, w.node? "/" = some root) where
  content _ := id
  addNodeAt identifier path primaryType _ :=
    leads_and (kept_filed.addNodeAt identifier path primaryType) <|
      leads_addNodeAt (fun _ hw => hw.2) fun _ _ _ ⟨_, _, hroot⟩ _ _ _ =>
        exists_node?_insertNode _ hroot
  changeMixins path change :=
    leads_and (kept_filed.changeMixins path change) <|
      leads_changeMixins (fun _ hw => hw.2) fun w n ⟨_, root, hroot⟩ hn =>
        let ⟨root', hroot', _⟩ := (sameNodes_changeMixins hn _).exists_node hroot
        ⟨root', hroot'⟩
  removeNode path hpath := by
    refine leads_and (kept_filed.removeNode path) <|
      leads_removeNode (fun _ hw => hw.2) fun w n ⟨hw, root, hroot⟩ hn => ⟨root, ?_⟩
    rw [node?_removeSubtree, if_neg, hroot]
    exact fun hwithin => hpath (Path.eq_root_of_isWithin (hw.ne_empty hn) hwithin)
  putProperty p :=
    leads_and (kept_filed.putProperty p) <|
      leads_putProperty (fun _ hw => hw.2) fun _ _ hw _ => hw.2
  removeProperty path name :=
    leads_and (kept_filed.removeProperty path name) <|
      leads_removeProperty (fun _ hw => hw.2) fun w ⟨_, root, hroot⟩ =>
        ⟨root, (node?_withoutProperty ..).trans hroot⟩
  checkin identifiers path labels created := by
    refine leads_and (kept_filed.checkin identifiers path labels created) ?_
    refine leads_checkin (Q := fun w => ∃ root, w.node? "/" = some root) (fun _ hw => hw.2)
      (fun _ _ hw _ => hw.2) fun count => ?_
    refine leads_freeze_version (fun _ => id) fun w hroot => ?_
    exact exists_node?_storeCopies identifiers 0 _ ((node?_withHolder ..).2 (.inr hroot))
  addVersionLabel path version label :=
    leads_and (kept_filed.addVersionLabel path version label) <|
      leads_addVersionLabel (fun _ hw => hw.2) fun _ _ hw _ => hw.2

end Edit

namespace Host

variable {r : Repository} {calls : List Call} {workspace : String} {w : Workspace}

/-- What is kept by edits at the paths that a run is given, and holds of the root, holds of all
stored paths of every state. -/
theorem allStored_of_holds {added Q : String → Prop} (hr : r.IsNew)
    (hkept : Edit.KeptAt added (fun _ => True) (fun w => w.Filed ∧ w.AllStored Q)) (hroot : Q "/")
    (hadded : ∀ d m path, (Host.mk r []).Undergoes calls workspace d m → m.newPath? = some path →
      added path)
    (hw : ((Host.mk r []).run calls).Holds workspace w) : w.AllStored Q := by
  have hfirst : (r.committed workspace).Filed ∧ (r.committed workspace).AllStored Q :=
    hr.of_committed (P := fun w => w.Filed ∧ w.AllStored Q)
      ⟨Workspace.filed_empty, Workspace.allStored_empty⟩
      (fun identifier => ⟨Workspace.filed_withRoot identifier,
        Workspace.allStored_withRoot hroot identifier⟩) workspace
  refine (of_undergone (P := fun w => w.Filed ∧ w.AllStored Q) hfirst
    (fun w version hw => ⟨hw.1.of_tables rfl rfl, hw.2⟩) (fun d m hm => ?_) hw).2
  exact hkept.edit d m (fun path hpath => hadded d m path hm hpath) fun _ _ => trivial

/-- The root of a workspace stays stored in a run that does not remove it. -/
theorem root_of_holds (hr : r.IsNew) (hworkspace : r.workspaces.contains workspace = true)
    (hkept : ∀ d m, (Host.mk r []).Undergoes calls workspace d m → m.removedPath? ≠ some "/")
    (hw : ((Host.mk r []).run calls).Holds workspace w) : ∃ root, w.node? "/" = some root := by
  have hfirst : (r.committed workspace).Filed ∧
      ∃ root, (r.committed workspace).node? "/" = some root := by
    obtain ⟨first, hfirst⟩ := Option.isSome_iff_exists.1
      (Std.ExtTreeMap.contains_eq_isSome_getElem?.symm.trans hworkspace)
    obtain ⟨identifier, rfl⟩ := hr workspace first hfirst
    rw [Repository.committed, Std.ExtTreeMap.getD_eq_getD_getElem?, hfirst, Option.getD_some]
    exact ⟨Workspace.filed_withRoot identifier, _, Workspace.node?_withRoot identifier "/"⟩
  refine (of_undergone (P := fun w => w.Filed ∧ ∃ root, w.node? "/" = some root) hfirst
    (fun w version hw => ⟨hw.1.of_tables rfl rfl, hw.2⟩) (fun d m hm => ?_) hw).2
  exact Edit.keptAt_root.edit d m (fun _ _ => trivial) fun path hpath hroot =>
    hkept d m hm (hroot ▸ hpath)

/-- What holds of a state of a workspace after a run. -/
structure Tree (r : Repository) (calls : List Call) (workspace : String) (w : Workspace) : Prop
    extends Workspace.Rooted w where
  /-- The root is stored, unless it has been removed. -/
  kept : r.workspaces.contains workspace = true →
    (∀ d m, (Host.mk r []).Undergoes calls workspace d m → m.removedPath? ≠ some "/") →
    ∃ root, w.node? "/" = some root
  /-- Every stored path but that of the root is its parent's child under its own name, if this is so
  with the paths at which nodes have been added. -/
  named : (∀ d m path, (Host.mk r []).Undergoes calls workspace d m → m.newPath? = some path →
    Path.Composed path) → w.Named

/-- **Every state of a host is a tree**, whatever paths its sessions have been given, from which the
root can be removed but nothing else can be cut off. -/
theorem tree_of_holds (hr : r.IsNew) (hw : ((Host.mk r []).run calls).Holds workspace w) :
    Tree r calls workspace w := by
  have hfiled : w.Filed := filed_of_holds hr hw
  have hhung : w.AllStored Path.Hung :=
    allStored_of_holds hr Edit.keptAt_hung (.inl rfl) (fun _ _ _ _ _ => trivial) hw
  refine { hfiled.rooted hhung with kept := fun hworkspace hkept => ?_, named := fun hadded => ?_ }
  · exact root_of_holds hr hworkspace hkept hw
  · exact hfiled.named hhung
      (allStored_of_holds hr Edit.keptAt_proper ⟨[], rfl⟩ hadded hw)

/-- A run in which a container below another one is checked in. -/
def branching : List Call :=
  [.opening "default", .mutate 0 (numbered 1) (.createContainer "/a"),
    .mutate 0 (numbered 2) (.createBinary "/a/b" [] "text/plain"),
    .mutate 0 (numbered 3) (.addMixin "/a/b" Vocab.Name.mixVersionable),
    .mutate 0 (numbered 4) (.checkin "/a/b" [] none),
    .mutate 0 (numbered 5) (.removeNode "/a/b/jcr:content"), .save 0]

/-- The run removes another node than the root and adds nodes at composed paths, so that its last
state is a tree with its root, in which children are told apart by their names. -/
theorem tree_branching :
    let w := ((Host.start "root").run branching).repository.committed "default"
    Tree (.start "root") branching "default" w ∧ (∃ root, w.node? "/" = some root) ∧ w.Named ∧
      w.nodes.keys = ["/", "/a", "/a/b", "/a/b/fcr:versions", "/a/b/fcr:versions/1.0",
        "/a/b/fcr:versions/1.0/jcr:content"] := by
  intro w
  have htree : Tree (.start "root") branching "default" w :=
    tree_of_holds (Repository.isNew_start "root") (.inl rfl)
  refine ⟨htree, htree.kept (by decide +kernel) fun d m hm => ?_,
    htree.named fun d m path hm hpath => ?_, by decide +kernel⟩
  · obtain ⟨number, hmem⟩ := hm.mem
    simp only [branching, List.mem_cons, List.not_mem_nil, or_false, reduceCtorEq, false_or,
      Call.mutate.injEq] at hmem
    rcases hmem with ⟨-, -, rfl⟩ | ⟨-, -, rfl⟩ | ⟨-, -, rfl⟩ | ⟨-, -, rfl⟩ | ⟨-, -, rfl⟩ <;>
      decide
  · have hcomposed : ∀ c ∈ branching, ∀ path ∈ c.newPath?, Path.Composed path := by decide
    obtain ⟨number, hmem⟩ := hm.mem
    exact hcomposed _ hmem path hpath

/-- Without the conditions there need not be a root, nor need names tell children apart: a session
may remove the root and save, and it may add two children of the root under one name, one of them
at a path that is not the root's child under that name. -/
theorem not_rooted_of_any_paths :
    let cleared := (Host.start "root").run
      [.opening "default", .mutate 0 (numbered 1) (.removeNode "/"), .save 0]
    let doubled := (Host.start "root").run
      [.opening "default", .mutate 0 (numbered 1) (.createContainer "/a"),
        .mutate 0 (numbered 2) (.createContainer "//a"), .save 0]
    (cleared.Holds "default" (cleared.repository.committed "default") ∧
        (cleared.repository.committed "default").node? "/" = none) ∧
      doubled.Holds "default" (doubled.repository.committed "default") ∧
        ((doubled.repository.committed "default").node? "//a").isSome = true ∧
        Path.parent? "//a" = some "/" ∧ Path.child "/" (Path.name "//a") ≠ "//a" ∧
        ((doubled.repository.committed "default").children "/").map
            (fun n => (n.path, n.name)) = [("//a", "a"), ("/a", "a")] := by
  intro cleared doubled
  exact ⟨⟨.inl rfl, by decide +kernel⟩, .inl rfl, by decide +kernel, by decide, by decide,
    by decide +kernel⟩

end Host

end LinkedStore
