import LinkedStore.Proofs.Store.Edit
import LinkedStore.Proofs.Store.Path
import LinkedStore.Proofs.Store.Table

/-!
# The integrity of a store

The tables of a workspace say the same thing in several ways: what a node is, where its identifier
leads, what it owns and what its history is.  A workspace is sound if its tables agree and its
nodes form a tree.  Every change that an edit makes keeps a workspace sound.

Taking nodes out one at a time breaks the tree, as a node goes before the nodes below it.  So the
agreement of the tables is stated apart; it is kept node by node, and the tree is whole again when
the last one is gone.

## Main definitions

* `Workspace.Consistent` : the tables of a workspace agree.
* `Workspace.Sound` : moreover, its nodes form a tree.
* `Workspace.OwnsHistories` : each history belongs to a stored node.
* `Workspace.ShowsNothingAt`, `Workspace.Forgets` : nothing is read of a path, or of an identifier.

## Main statements

* `Workspace.Sound.insertNode`, `Workspace.Sound.removeSubtree` and their like : every change keeps
  a workspace sound.
* `Workspace.Sound.showsNothingAt` : where no node is stored, nothing is read.
-/

namespace LinkedStore.Workspace

/-- The tables of a workspace agree. -/
structure Consistent (w : Workspace) : Prop where
  /-- Each node is stored under its own path. -/
  path : ∀ {path : String} {n : Node}, w.node? path = some n → n.path = path
  /-- An identifier leads to a path exactly if the node stored there bears it. -/
  identifier : ∀ {identifier path : String},
    w.identifiers[identifier]? = some path ↔
      ∃ n, w.node? path = some n ∧ n.identifier = identifier
  /-- Each property is stored under its owner, which is a stored node, and under its name. -/
  property : ∀ {path name : String} {p : Property}, w.property? path name = some p →
    p.owner = path ∧ p.name = name ∧ ∃ n, w.node? path = some n
  /-- Each history belongs to a stored node. -/
  history : ∀ {path : String} {history : VersionHistory}, w.history? path = some history →
    ∃ n, w.node? path = some n

/-- The tables of a workspace agree, and with each node its parent is stored. -/
structure Sound (w : Workspace) : Prop extends Consistent w where
  proper : ∀ {path : String} {n : Node}, w.node? path = some n → Path.Proper path
  parent : ∀ {path : String} {n : Node}, w.node? path = some n → path ≠ "/" →
    ∃ parent above, Path.parent? path = some parent ∧ w.node? parent = some above

variable {w : Workspace} {n : Node} {p : Property} {path : String}

/-! ### The tables after a change -/

theorem node?_insertNode (w : Workspace) (n : Node) (path : String) :
    (w.insertNode n).node? path = if n.path = path then some n else w.node? path :=
  Table.getElem?_insert ..

theorem identifiers_insertNode (w : Workspace) (n : Node) (identifier : String) :
    (w.insertNode n).identifiers[identifier]? =
      if n.identifier = identifier then some n.path else w.identifiers[identifier]? :=
  Table.getElem?_insert ..

theorem node?_insertNode_plain (w : Workspace) (path identifier primaryType k : String) :
    (w.insertNode (.plain path identifier primaryType)).node? k =
      if path = k then some (.plain path identifier primaryType) else w.node? k :=
  Table.getElem?_insert ..

theorem property?_holdProperty (w : Workspace) (p : Property) (path name : String) :
    (w.holdProperty p).property? path name =
      if p.owner = path ∧ p.name = name then some p else w.property? path name := by
  rw [property?, holdProperty, Table.getElem?_insert, property?]
  by_cases howner : p.owner = path
  · subst howner
    rw [if_pos rfl, Option.bind_some, Table.getElem?_insert, Std.ExtTreeMap.getD_eq_getD_getElem?]
    by_cases hname : p.name = name
    · rw [if_pos hname, if_pos ⟨rfl, hname⟩]
    · rw [if_neg hname, if_neg fun h => hname h.2]
      cases w.properties[p.owner]? <;> simp
  · rw [if_neg howner, if_neg fun h => howner h.1]

theorem property?_withoutProperty (w : Workspace) (path name k l : String) :
    (w.withoutProperty path name).property? k l =
      if path = k ∧ name = l then none else w.property? k l := by
  rw [withoutProperty]
  cases hheld : w.properties[path]? with
  | none =>
      by_cases hkey : path = k ∧ name = l
      · rw [if_pos hkey, property?, ← hkey.1, hheld, Option.bind_none]
      · rw [if_neg hkey]
  | some held =>
      simp only [property?]
      rw [Table.getElem?_insert]
      by_cases hpath : path = k
      · subst hpath
        rw [if_pos rfl, Option.bind_some, Table.getElem?_erase, hheld, Option.bind_some]
        by_cases hname : name = l
        · rw [if_pos hname, if_pos ⟨rfl, hname⟩]
        · rw [if_neg hname, if_neg fun h => hname h.2]
      · rw [if_neg hpath, if_neg fun h => hpath h.1]

theorem node?_withoutProperty (w : Workspace) (path name k : String) :
    (w.withoutProperty path name).node? k = w.node? k := by
  rw [withoutProperty]
  cases w.properties[path]? <;> rfl

theorem identifiers_withoutProperty (w : Workspace) (path name : String) :
    (w.withoutProperty path name).identifiers = w.identifiers := by
  rw [withoutProperty]
  cases w.properties[path]? <;> rfl

theorem history?_withoutProperty (w : Workspace) (path name k : String) :
    (w.withoutProperty path name).history? k = w.history? k := by
  rw [withoutProperty]
  cases w.properties[path]? <;> rfl

theorem node?_dropNode (w : Workspace) (path k : String) :
    (w.dropNode path).node? k = if path = k then none else w.node? k :=
  Table.getElem?_erase ..

theorem property?_dropNode (w : Workspace) (path k name : String) :
    (w.dropNode path).property? k name = if path = k then none else w.property? k name := by
  rw [property?, dropNode, Table.getElem?_erase, property?]
  by_cases hpath : path = k
  · rw [if_pos hpath, if_pos hpath, Option.bind_none]
  · rw [if_neg hpath, if_neg hpath]

theorem history?_dropNode (w : Workspace) (path k : String) :
    (w.dropNode path).history? k = if path = k then none else w.history? k :=
  Table.getElem?_erase ..

/-! ### Nodes that are stored -/

theorem Consistent.path_unique (hw : w.Consistent) {path path' : String} {n n' : Node}
    (hn : w.node? path = some n) (hn' : w.node? path' = some n')
    (hsame : n.identifier = n'.identifier) : path = path' := by
  have hpath := hw.identifier.2 ⟨n, hn, hsame⟩
  have hpath' := hw.identifier.2 ⟨n', hn', rfl⟩
  exact Option.some.inj (hpath.symm.trans hpath')

theorem contains_eq_false_iff : w.nodes.contains path = false ↔ w.node? path = none := by
  rw [Std.ExtTreeMap.contains_eq_isSome_getElem?, Option.isSome_eq_false_iff,
    Option.isNone_iff_eq_none]
  rfl

theorem node?_of_contains_eq_false (h : w.nodes.contains path = false) :
    w.node? path = none := contains_eq_false_iff.1 h

/-- With a node its parent is stored. -/
theorem Sound.node?_of_parent? (hw : w.Sound) (hn : w.node? path = some n) {parent : String}
    (hparent : Path.parent? path = some parent) : ∃ above, w.node? parent = some above := by
  have hroot : path ≠ "/" := by
    rintro rfl
    exact nomatch Path.parent?_root.symm.trans hparent
  obtain ⟨parent', above, hparent', habove⟩ := hw.parent hn hroot
  obtain rfl := Option.some.inj (hparent.symm.trans hparent')
  exact ⟨above, habove⟩

theorem Consistent.property?_of_free (hw : w.Consistent) (hfree : w.node? path = none)
    (name : String) : w.property? path name = none := by
  rw [Option.eq_none_iff_forall_ne_some]
  intro p hp
  obtain ⟨-, -, n, hn⟩ := hw.property hp
  rw [hfree] at hn
  exact nomatch hn

/-- Each history belongs to a stored node. -/
def OwnsHistories (w : Workspace) : Prop :=
  ∀ path history, w.history? path = some history → ∃ n, w.node? path = some n

theorem OwnsHistories.history?_of_free (hw : w.OwnsHistories) (hfree : w.node? path = none) :
    w.history? path = none := by
  rw [Option.eq_none_iff_forall_ne_some]
  intro history hhistory
  obtain ⟨n, hn⟩ := hw path history hhistory
  exact nomatch hfree.symm.trans hn

theorem Consistent.history?_of_free (hw : w.Consistent) (hfree : w.node? path = none) :
    w.history? path = none :=
  OwnsHistories.history?_of_free (fun _ _ => hw.history) hfree

/-! ### Adding nodes -/

theorem exists_node?_insertNode (n : Node) {m : Node} (hm : w.node? path = some m) :
    ∃ m', (w.insertNode n).node? path = some m' := by
  rw [node?_insertNode]
  by_cases hpath : n.path = path
  · exact ⟨n, if_pos hpath⟩
  · exact ⟨m, by rw [if_neg hpath, hm]⟩

theorem Consistent.insertNode (hw : w.Consistent) (hfree : w.node? n.path = none)
    (hnew : w.identifiers[n.identifier]? = none) : (w.insertNode n).Consistent where
  path {k m} hm := by
    rw [node?_insertNode] at hm
    by_cases hk : n.path = k
    · rw [if_pos hk] at hm
      rw [← Option.some.inj hm, hk]
    · rw [if_neg hk] at hm
      exact hw.path hm
  identifier {identifier k} := by
    rw [identifiers_insertNode, node?_insertNode]
    by_cases hidentifier : n.identifier = identifier
    · subst hidentifier
      rw [if_pos rfl, Option.some_inj]
      constructor
      · intro hk
        exact ⟨n, if_pos hk, rfl⟩
      · rintro ⟨m, hm, hsame⟩
        refine Decidable.byContradiction fun hk => ?_
        rw [if_neg hk] at hm
        rw [hw.identifier.2 ⟨m, hm, hsame⟩] at hnew
        exact nomatch hnew
    · rw [if_neg hidentifier, hw.identifier]
      by_cases hk : n.path = k
      · subst hk
        rw [if_pos rfl, hfree]
        simp [hidentifier]
      · rw [if_neg hk]
  property {k name q} hq := by
    obtain ⟨howner, hname, m, hm⟩ := hw.property hq
    exact ⟨howner, hname, exists_node?_insertNode n hm⟩
  history {k history} hhistory := by
    obtain ⟨m, hm⟩ := hw.history hhistory
    exact exists_node?_insertNode n hm

/-- A node is added at a free path whose parent is stored, with an identifier that is not in
use. -/
theorem Sound.insertNode (hw : w.Sound) (hproper : Path.Proper n.path) {parent : String}
    {above : Node} (hparent : Path.parent? n.path = some parent)
    (habove : w.node? parent = some above) (hfree : w.node? n.path = none)
    (hnew : w.identifiers[n.identifier]? = none) : (w.insertNode n).Sound where
  toConsistent := hw.toConsistent.insertNode hfree hnew
  proper {k m} hm := by
    rw [node?_insertNode] at hm
    by_cases hk : n.path = k
    · exact hk ▸ hproper
    · rw [if_neg hk] at hm
      exact hw.proper hm
  parent {k m} hm hroot := by
    rw [node?_insertNode] at hm
    by_cases hk : n.path = k
    · subst hk
      obtain ⟨above', habove'⟩ := exists_node?_insertNode n habove
      exact ⟨parent, above', hparent, habove'⟩
    · rw [if_neg hk] at hm
      obtain ⟨q, v, hq, hv⟩ := hw.parent hm hroot
      obtain ⟨v', hv'⟩ := exists_node?_insertNode n hv
      exact ⟨q, v', hq, hv'⟩

/-! ### Changes that keep where nodes are

A change of types, properties or histories keeps under each path a node of the same path and
identifier. -/

/-- The nodes of two states are stored under the same paths and bear the same identifiers. -/
def SameNodes (w w' : Workspace) : Prop :=
  ∀ path, (w'.node? path).map (fun n => (n.path, n.identifier)) =
    (w.node? path).map fun n => (n.path, n.identifier)

variable {w' : Workspace}

theorem SameNodes.symm (h : SameNodes w w') : SameNodes w' w := fun path => (h path).symm

theorem SameNodes.exists_node (h : SameNodes w w') (hn : w.node? path = some n) :
    ∃ n', w'.node? path = some n' ∧ n'.path = n.path ∧ n'.identifier = n.identifier := by
  have hsame := h path
  rw [hn, Option.map_some, Option.map_eq_some_iff] at hsame
  obtain ⟨n', hn', heq⟩ := hsame
  exact ⟨n', hn', (Prod.mk.inj heq).1, (Prod.mk.inj heq).2⟩

theorem sameNodes_of_nodes_eq (h : w'.nodes = w.nodes) : SameNodes w w' := by
  intro path
  rw [node?, h, node?]

/-- A change that keeps where nodes are keeps a workspace sound, if what it puts into the other
tables belongs to stored nodes. -/
theorem Sound.of_sameNodes (hw : w.Sound) (hnodes : SameNodes w w')
    (hidentifiers : w'.identifiers = w.identifiers)
    (hproperty : ∀ path name p, w'.property? path name = some p →
      w.property? path name = some p ∨
        p.owner = path ∧ p.name = name ∧ ∃ n, w.node? path = some n)
    (hhistory : ∀ path history, w'.history? path = some history →
      (∃ history', w.history? path = some history') ∨ ∃ n, w.node? path = some n) :
    w'.Sound where
  path {path n'} hn' := by
    obtain ⟨n, hn, hpath, -⟩ := hnodes.symm.exists_node hn'
    rw [← hpath, hw.path hn]
  identifier {identifier path} := by
    rw [hidentifiers, hw.identifier]
    constructor
    · rintro ⟨n, hn, rfl⟩
      obtain ⟨n', hn', -, hsame⟩ := hnodes.exists_node hn
      exact ⟨n', hn', hsame⟩
    · rintro ⟨n', hn', rfl⟩
      obtain ⟨n, hn, -, hsame⟩ := hnodes.symm.exists_node hn'
      exact ⟨n, hn, hsame⟩
  property {path name p} hp := by
    have howned : p.owner = path ∧ p.name = name ∧ ∃ n, w.node? path = some n := by
      rcases hproperty path name p hp with hold | hnew
      · exact hw.property hold
      · exact hnew
    obtain ⟨howner, hname, n, hn⟩ := howned
    obtain ⟨n', hn', -⟩ := hnodes.exists_node hn
    exact ⟨howner, hname, n', hn'⟩
  history {path history} hh := by
    have hstored : ∃ n, w.node? path = some n := by
      rcases hhistory path history hh with ⟨history', hold⟩ | hnew
      · exact hw.history hold
      · exact hnew
    obtain ⟨n, hn⟩ := hstored
    obtain ⟨n', hn', -⟩ := hnodes.exists_node hn
    exact ⟨n', hn'⟩
  proper {path n'} hn' := by
    obtain ⟨n, hn, -⟩ := hnodes.symm.exists_node hn'
    exact hw.proper hn
  parent {path n'} hn' hroot := by
    obtain ⟨n, hn, -⟩ := hnodes.symm.exists_node hn'
    obtain ⟨parent, above, hparent, habove⟩ := hw.parent hn hroot
    obtain ⟨above', habove', -⟩ := hnodes.exists_node habove
    exact ⟨parent, above', hparent, habove'⟩

theorem sameNodes_changeMixins (hn : w.node? path = some n) (mixins : List String) :
    SameNodes w { w with nodes := w.nodes.insert path { n with mixins := mixins } } := by
  intro k
  rw [node?, Table.getElem?_insert]
  by_cases hk : path = k
  · subst hk
    rw [if_pos rfl, hn]
    rfl
  · rw [if_neg hk, node?]

theorem Sound.changeMixins (hw : w.Sound) (hn : w.node? path = some n) (mixins : List String) :
    Sound { w with nodes := w.nodes.insert path { n with mixins := mixins } } :=
  hw.of_sameNodes (sameNodes_changeMixins hn mixins) rfl (fun _ _ _ => Or.inl)
    fun _ history hh => Or.inl ⟨history, hh⟩

theorem Sound.holdProperty (hw : w.Sound) (hn : w.node? p.owner = some n) :
    (w.holdProperty p).Sound := by
  refine hw.of_sameNodes (sameNodes_of_nodes_eq rfl) rfl (fun k name q hq => ?_)
    fun _ history hh => Or.inl ⟨history, hh⟩
  rw [property?_holdProperty] at hq
  by_cases hkey : p.owner = k ∧ p.name = name
  · rw [if_pos hkey] at hq
    obtain rfl := Option.some.inj hq
    exact Or.inr ⟨hkey.1, hkey.2, n, hkey.1 ▸ hn⟩
  · rw [if_neg hkey] at hq
    exact Or.inl hq

theorem Sound.withoutProperty (hw : w.Sound) (path name : String) :
    (w.withoutProperty path name).Sound := by
  refine hw.of_sameNodes (fun k => by rw [node?_withoutProperty])
    (identifiers_withoutProperty w path name) (fun k l q hq => ?_) fun k history hh => ?_
  · rw [property?_withoutProperty] at hq
    by_cases hkey : path = k ∧ name = l
    · rw [if_pos hkey] at hq
      exact nomatch hq
    · rw [if_neg hkey] at hq
      exact Or.inl hq
  · rw [history?_withoutProperty] at hh
    exact Or.inl ⟨history, hh⟩

theorem Sound.insertHistory (hw : w.Sound) (hn : w.node? path = some n)
    (history : VersionHistory) :
    Sound { w with histories := w.histories.insert path history } := by
  refine hw.of_sameNodes (sameNodes_of_nodes_eq rfl) rfl (fun _ _ _ => Or.inl) fun k other hh => ?_
  rw [history?, Table.getElem?_insert] at hh
  by_cases hk : path = k
  · exact Or.inr ⟨n, hk ▸ hn⟩
  · rw [if_neg hk] at hh
    exact Or.inl ⟨other, hh⟩

/-- The version of a state says nothing of its tables. -/
theorem Sound.setVersion (hw : w.Sound) (version : Nat) :
    Sound { w with version := version } :=
  hw.of_sameNodes (sameNodes_of_nodes_eq rfl) rfl (fun _ _ _ => Or.inl)
    fun _ history hh => Or.inl ⟨history, hh⟩

/-! ### Removing nodes -/

theorem identifiers_dropNode_of_free (hfree : w.node? path = none) :
    (w.dropNode path).identifiers = w.identifiers := by
  rw [dropNode, hfree]

theorem identifiers_dropNode (hn : w.node? path = some n) (identifier : String) :
    (w.dropNode path).identifiers[identifier]? =
      if n.identifier = identifier then none else w.identifiers[identifier]? := by
  rw [dropNode, hn]
  exact Table.getElem?_erase ..

/-- Taking a node out adds no identifier. -/
theorem identifiers_of_dropNode {identifier k : String}
    (hk : (w.dropNode path).identifiers[identifier]? = some k) :
    w.identifiers[identifier]? = some k := by
  cases hn : w.node? path with
  | none => rwa [identifiers_dropNode_of_free hn] at hk
  | some n =>
      rw [identifiers_dropNode hn] at hk
      split at hk
      · exact nomatch hk
      · exact hk

theorem identifiers_of_dropNodes {paths : List String} {identifier : String}
    (hpath : (paths.foldl dropNode w).identifiers[identifier]? = some path) :
    w.identifiers[identifier]? = some path := by
  induction paths generalizing w with
  | nil => exact hpath
  | cons k paths ih => exact identifiers_of_dropNode (ih hpath)

theorem Consistent.dropNode (hw : w.Consistent) (path : String) :
    (w.dropNode path).Consistent where
  path {k m} hm := by
    rw [node?_dropNode] at hm
    by_cases hk : path = k
    · rw [if_pos hk] at hm
      exact nomatch hm
    · rw [if_neg hk] at hm
      exact hw.path hm
  identifier {identifier k} := by
    rw [node?_dropNode]
    cases hn : w.node? path with
    | none =>
        rw [identifiers_dropNode_of_free hn, hw.identifier]
        by_cases hk : path = k
        · subst hk
          rw [if_pos rfl, hn]
        · rw [if_neg hk]
    | some n =>
        rw [identifiers_dropNode hn]
        by_cases hidentifier : n.identifier = identifier
        · rw [if_pos hidentifier]
          constructor
          · exact fun h => nomatch h
          · rintro ⟨m, hm, hsame⟩
            by_cases hk : path = k
            · rw [if_pos hk] at hm
              exact nomatch hm
            · rw [if_neg hk] at hm
              exact absurd (hw.path_unique hn hm (hidentifier.trans hsame.symm)) hk
        · rw [if_neg hidentifier, hw.identifier]
          by_cases hk : path = k
          · subst hk
            rw [if_pos rfl, hn]
            simp [hidentifier]
          · rw [if_neg hk]
  property {k name q} hq := by
    rw [property?_dropNode] at hq
    by_cases hk : path = k
    · rw [if_pos hk] at hq
      exact nomatch hq
    · rw [if_neg hk] at hq
      rw [node?_dropNode, if_neg hk]
      exact hw.property hq
  history {k history} hh := by
    rw [history?_dropNode] at hh
    by_cases hk : path = k
    · rw [if_pos hk] at hh
      exact nomatch hh
    · rw [if_neg hk] at hh
      rw [node?_dropNode, if_neg hk]
      exact hw.history hh

theorem Consistent.dropNodes (hw : w.Consistent) (paths : List String) :
    (paths.foldl Workspace.dropNode w).Consistent := by
  induction paths generalizing w with
  | nil => exact hw
  | cons path paths ih => exact ih (hw.dropNode path)

theorem node?_dropNodes (w : Workspace) (paths : List String) (k : String) :
    (paths.foldl dropNode w).node? k = if k ∈ paths then none else w.node? k := by
  induction paths generalizing w with
  | nil => rfl
  | cons path paths ih =>
      rw [List.foldl_cons, ih, node?_dropNode]
      by_cases hk : path = k
      · simp [hk]
      · simp [Ne.symm hk, hk]

theorem history?_dropNodes (w : Workspace) (paths : List String) (k : String) :
    (paths.foldl dropNode w).history? k = if k ∈ paths then none else w.history? k := by
  induction paths generalizing w with
  | nil => rfl
  | cons path paths ih =>
      rw [List.foldl_cons, ih, history?_dropNode]
      by_cases hk : path = k
      · simp [hk]
      · simp [Ne.symm hk, hk]

theorem mem_subtree {k : String} :
    k ∈ w.subtree path ↔ (∃ n, w.node? k = some n) ∧ Path.isWithin path k = true := by
  rw [subtree, List.mem_filter, Table.mem_keys_iff]
  rfl

/-- The nodes that are left are those that do not lie within the path. -/
theorem node?_removeSubtree (w : Workspace) (path k : String) :
    ((w.subtree path).foldl dropNode w).node? k =
      if Path.isWithin path k = true then none else w.node? k := by
  rw [node?_dropNodes]
  by_cases hk : Path.isWithin path k = true
  · rw [if_pos hk]
    cases hn : w.node? k with
    | none => rw [ite_self]
    | some n => rw [if_pos (mem_subtree.2 ⟨⟨n, hn⟩, hk⟩)]
  · rw [if_neg hk, if_neg fun hmem => hk (mem_subtree.1 hmem).2]

/-- A removal takes a whole subtree, so that what is left keeps its parents. -/
theorem Sound.removeSubtree (hw : w.Sound) (path : String) :
    ((w.subtree path).foldl Workspace.dropNode w).Sound where
  toConsistent := hw.toConsistent.dropNodes _
  proper {k m} hm := by
    rw [node?_removeSubtree] at hm
    by_cases hk : Path.isWithin path k = true
    · rw [if_pos hk] at hm
      exact nomatch hm
    · rw [if_neg hk] at hm
      exact hw.proper hm
  parent {k m} hm hroot := by
    rw [node?_removeSubtree] at hm
    by_cases hk : Path.isWithin path k = true
    · rw [if_pos hk] at hm
      exact nomatch hm
    · rw [if_neg hk] at hm
      obtain ⟨parent, above, hparent, habove⟩ := hw.parent hm hroot
      refine ⟨parent, above, hparent, ?_⟩
      rw [node?_removeSubtree, if_neg, habove]
      intro hwithin
      exact hk (Path.isWithin_of_parent? hparent hwithin)

/-! ### What is read of a node that is not there -/

/-- Where no node is stored, nothing is read: no node, no property and no history. -/
structure ShowsNothingAt (w : Workspace) (path : String) : Prop where
  node : w.node? path = none
  byIdentifier : ∀ identifier n, w.byIdentifier? identifier = some n → n.path ≠ path
  children : w.children path = []
  childOf : ∀ parent, ∀ n ∈ w.children parent, n.path ≠ path
  properties : w.propertiesOf path = []
  property : ∀ name, w.property? path name = none
  references : ∀ kind, w.references path kind = []
  referenceFrom : ∀ target kind, ∀ p ∈ w.references target kind, p.owner ≠ path
  content : w.content? path = none
  history : w.history? path = none

/-- An identifier is forgotten if it leads nowhere and no node that is read bears it. -/
structure Forgets (w : Workspace) (identifier : String) : Prop where
  byIdentifier : w.byIdentifier? identifier = none
  node : ∀ path n, w.node? path = some n → n.identifier ≠ identifier
  byAnother : ∀ another n, w.byIdentifier? another = some n → n.identifier ≠ identifier
  children : ∀ path, ∀ n ∈ w.children path, n.identifier ≠ identifier

theorem exists_of_byIdentifier? {identifier : String} (hn : w.byIdentifier? identifier = some n) :
    ∃ path, w.identifiers[identifier]? = some path ∧ w.node? path = some n :=
  Option.bind_eq_some_iff.1 hn

theorem mem_children_iff : n ∈ w.children path ↔
    (∃ k, w.node? k = some n) ∧ Path.parent? n.path = some path := by
  rw [children, List.mem_filter, Table.mem_values_iff, beq_iff_eq]
  rfl

/-- Where each node is stored under its own path, so are the children of a node. -/
theorem node?_of_mem_children
    (hpath : ∀ {path : String} {n : Node}, w.node? path = some n → n.path = path)
    (hn : n ∈ w.children path) : w.node? n.path = some n ∧ Path.parent? n.path = some path := by
  obtain ⟨⟨k, hk⟩, hparent⟩ := mem_children_iff.1 hn
  refine ⟨?_, hparent⟩
  rw [hpath hk]
  exact hk

theorem Consistent.propertiesOf_of_free (hw : w.Consistent) (hfree : w.node? path = none) :
    w.propertiesOf path = [] := by
  rw [propertiesOf]
  cases hheld : w.properties[path]? with
  | none => rfl
  | some held =>
      rw [Option.map_some, Option.getD_some, List.eq_nil_iff_forall_not_mem]
      intro p hp
      obtain ⟨name, hname⟩ := Table.mem_values_iff.1 hp
      have hproperty : w.property? path name = some p := by
        rw [property?, hheld, Option.bind_some, hname]
      rw [hw.property?_of_free hfree] at hproperty
      exact nomatch hproperty

/-- A property that is listed as a reference is stored, and refers to the node by a value. -/
theorem exists_property?_of_mem_references {kind : ReferenceKind}
    (hp : p ∈ w.references path kind) : ∃ n owner name, w.node? path = some n ∧
      w.property? owner name = some p ∧
      ∃ value ∈ p.values, kind.includes value = true ∧ value.text? = some n.identifier := by
  rw [references] at hp
  cases htarget : w.node? path with
  | none =>
      rw [htarget] at hp
      exact nomatch hp
  | some n =>
      rw [htarget, List.mem_filter, List.mem_flatMap] at hp
      obtain ⟨⟨held, hheld, hp⟩, hvalues⟩ := hp
      obtain ⟨owner, howner⟩ := Table.mem_values_iff.1 hheld
      obtain ⟨name, hname⟩ := Table.mem_values_iff.1 hp
      obtain ⟨value, hvalue, hrefers⟩ := List.any_eq_true.1 hvalues
      rw [Bool.and_eq_true, beq_iff_eq] at hrefers
      refine ⟨n, owner, name, rfl, ?_, value, hvalue, hrefers⟩
      rw [property?, howner, Option.bind_some, hname]

theorem Consistent.node?_of_mem_references (hw : w.Consistent) {kind : ReferenceKind}
    (hp : p ∈ w.references path kind) : ∃ n, w.node? p.owner = some n := by
  obtain ⟨-, owner, name, -, hproperty, -⟩ := exists_property?_of_mem_references hp
  obtain ⟨howner, -, n, hn⟩ := hw.property hproperty
  exact ⟨n, howner ▸ hn⟩

theorem Sound.showsNothingAt (hw : w.Sound) (hfree : w.node? path = none) :
    w.ShowsNothingAt path := by
  have hne {k : String} {n : Node} (hn : w.node? k = some n) : k ≠ path := by
    rintro rfl
    exact nomatch hfree.symm.trans hn
  refine
    { node := hfree
      byIdentifier := fun identifier n hn => ?_
      children := ?_
      childOf := fun parent n hn => hne (node?_of_mem_children hw.path hn).1
      properties := hw.propertiesOf_of_free hfree
      property := hw.property?_of_free hfree
      references := fun kind => ?_
      referenceFrom := fun target kind p hp => ?_
      content := ?_
      history := hw.history?_of_free hfree }
  · obtain ⟨k, -, hk⟩ := exists_of_byIdentifier? hn
    rw [hw.path hk]
    exact hne hk
  · rw [List.eq_nil_iff_forall_not_mem]
    intro n hn
    obtain ⟨hnode, hparent⟩ := node?_of_mem_children hw.path hn
    obtain ⟨above, habove⟩ := hw.node?_of_parent? hnode hparent
    exact hne habove rfl
  · rw [references, hfree]
  · obtain ⟨n, hn⟩ := hw.node?_of_mem_references hp
    exact hne hn
  · rw [content?, hw.property?_of_free hfree, Option.bind_none]

theorem Consistent.forgets (hw : w.Consistent) {identifier : String}
    (hnone : ∀ path n, w.node? path = some n → n.identifier ≠ identifier) :
    w.Forgets identifier where
  byIdentifier := by
    rw [Option.eq_none_iff_forall_ne_some]
    intro n hn
    obtain ⟨path, hpath, -⟩ := exists_of_byIdentifier? hn
    obtain ⟨n', hn', hsame⟩ := hw.identifier.1 hpath
    exact hnone path n' hn' hsame
  node := hnone
  byAnother another n hn := by
    obtain ⟨path, -, hpath⟩ := exists_of_byIdentifier? hn
    exact hnone path n hpath
  children path n hn := hnone n.path n (node?_of_mem_children hw.path hn).1

/-! ### The state at the start -/

theorem node?_empty (path : String) : empty.node? path = none := Std.ExtTreeMap.getElem?_empty

theorem sound_empty : empty.Sound := by
  have hproperty (path name : String) : empty.property? path name = none := by
    rw [property?, empty, Std.ExtTreeMap.getElem?_empty, Option.bind_none]
  have hhistory (path : String) : empty.history? path = none := Std.ExtTreeMap.getElem?_empty
  have hidentifier (identifier : String) : empty.identifiers[identifier]? = none :=
    Std.ExtTreeMap.getElem?_empty
  constructor
  · constructor <;> simp [node?_empty, hproperty, hhistory, hidentifier]
  · simp [node?_empty]
  · simp [node?_empty]

theorem sound_withRoot (identifier : String) : (withRoot identifier).Sound := by
  have hroot {path : String} {n : Node} (hn : (withRoot identifier).node? path = some n) :
      path = "/" := by
    rw [withRoot, node?_insertNode] at hn
    by_cases hpath : "/" = path
    · exact hpath.symm
    · rw [if_neg hpath, node?_empty] at hn
      exact nomatch hn
  refine ⟨?_, fun hn => ⟨[], hroot hn⟩, fun hn hne => absurd (hroot hn) hne⟩
  exact sound_empty.toConsistent.insertNode (node?_empty _) Std.ExtTreeMap.getElem?_empty

end LinkedStore.Workspace
