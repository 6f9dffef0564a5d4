import LinkedStore.Proofs.Store.Freeze

/-!
# The filing of a store

Whatever paths and identifiers an edit is given, it leaves every node under its own path, below its
parent, and every property under its owner and name.  This is less than soundness, where paths are
proper and identifiers stand for one node each, but it asks nothing of what the edit is given.

A freeze may put a copy where a node is already, so that its places need not be free here.  What
remains is that each copy finds its parent when its turn comes.

## Main definitions

* `Workspace.Filed` : nodes and properties are stored where they belong.
* `Path.Supported` : each of some paths finds its parent when its turn comes.

## Main statements

* `Workspace.Filed.insertNode`, `Workspace.Filed.removeSubtree` and their like : every change keeps
  a workspace filed.
* `Workspace.Filed.withCopies` : so does storing the frozen copies.
* `Workspace.Filed.isTree` : a filed workspace whose paths are proper is a tree.
-/

namespace LinkedStore

namespace Path

/-- None of the listed paths is empty, and each finds its parent, if it has one, when its turn
comes. -/
def Supported : (String → Prop) → List String → Prop
  | _, [] => True
  | stored, path :: rest =>
      path ≠ "" ∧ (∀ parent, parent? path = some parent → stored parent) ∧
        Supported (fun k => k = path ∨ stored k) rest

variable {stored stored' : String → Prop}

theorem Supported.mono (h : ∀ k, stored k → stored' k) {paths : List String}
    (hpaths : Supported stored paths) : Supported stored' paths := by
  induction paths generalizing stored stored' with
  | nil => trivial
  | cons path paths ih =>
      obtain ⟨hpath, hparent, hrest⟩ := hpaths
      exact ⟨hpath, fun parent hp => h parent (hparent parent hp),
        ih (fun k hk => hk.imp id (h k)) hrest⟩

theorem Supported.append {a b : List String} (ha : Supported stored a)
    (hb : Supported stored b) : Supported stored (a ++ b) := by
  induction a generalizing stored with
  | nil => exact hb
  | cons path a ih =>
      obtain ⟨hpath, hparent, hrest⟩ := ha
      exact ⟨hpath, hparent, ih hrest (hb.mono fun _ => Or.inr)⟩

theorem Supported.flatMap {α : Type} {paths : α → List String} {items : List α}
    (hitems : ∀ a ∈ items, Supported stored (paths a)) :
    Supported stored (items.flatMap paths) := by
  induction items with
  | nil => trivial
  | cons a items ih =>
      rw [List.flatMap_cons]
      exact (hitems a List.mem_cons_self).append
        (ih fun b hb => hitems b (List.mem_cons_of_mem a hb))

end Path

namespace Workspace

/-- Each node is stored under its own path, which is not empty, together with its parent, and each
property under its owner, which is a stored node, and under its name. -/
structure Filed (w : Workspace) : Prop where
  path : ∀ {path : String} {n : Node}, w.node? path = some n → n.path = path
  ne_empty : ∀ {path : String} {n : Node}, w.node? path = some n → path ≠ ""
  parent : ∀ {path : String} {n : Node}, w.node? path = some n → ∀ {parent : String},
    Path.parent? path = some parent → ∃ above, w.node? parent = some above
  property : ∀ {path name : String} {p : Property}, w.property? path name = some p →
    p.owner = path ∧ p.name = name ∧ ∃ n, w.node? path = some n

variable {w w' state : Workspace} {n : Node} {p : Property} {path : String}

theorem Filed.isTree (hw : w.Filed)
    (hproper : ∀ {path : String} {n : Node}, w.node? path = some n → Path.Proper path) :
    w.IsTree := ⟨hw.path, hproper, hw.parent⟩

theorem filed_empty : empty.Filed where
  path hn := nomatch (node?_empty _).symm.trans hn
  ne_empty hn := nomatch (node?_empty _).symm.trans hn
  parent hn := nomatch (node?_empty _).symm.trans hn
  property hp := (sound_empty.property hp)

/-! ### Single changes -/

/-- A node may be added wherever its parent, if it has one, is stored. -/
theorem Filed.insertNode (hw : w.Filed) (hpath : n.path ≠ "")
    (habove : ∀ parent, Path.parent? n.path = some parent → ∃ above, w.node? parent = some above) :
    (w.insertNode n).Filed where
  path {k m} hm := by
    rw [node?_insertNode] at hm
    by_cases hk : n.path = k
    · rw [if_pos hk] at hm
      rw [← Option.some.inj hm, hk]
    · rw [if_neg hk] at hm
      exact hw.path hm
  ne_empty {k m} hm := by
    rw [node?_insertNode] at hm
    by_cases hk : n.path = k
    · exact hk ▸ hpath
    · rw [if_neg hk] at hm
      exact hw.ne_empty hm
  parent {k m} hm {parent} hparent := by
    rw [node?_insertNode] at hm
    have hold : ∃ above, w.node? parent = some above := by
      by_cases hk : n.path = k
      · exact habove parent (hk ▸ hparent)
      · rw [if_neg hk] at hm
        exact hw.parent hm hparent
    obtain ⟨above, habove⟩ := hold
    exact exists_node?_insertNode n habove
  property {k name q} hq := by
    obtain ⟨howner, hname, m, hm⟩ := hw.property hq
    exact ⟨howner, hname, exists_node?_insertNode n hm⟩

theorem filed_withRoot (identifier : String) : (withRoot identifier).Filed :=
  filed_empty.insertNode (show "/" ≠ "" by decide) fun _ hparent =>
    nomatch Path.parent?_root.symm.trans hparent

/-- A change that keeps where nodes are keeps a workspace filed, if the properties that it puts
into the table belong to stored nodes. -/
theorem Filed.of_sameNodes (hw : w.Filed) (hnodes : SameNodes w w')
    (hproperty : ∀ path name p, w'.property? path name = some p →
      w.property? path name = some p ∨
        p.owner = path ∧ p.name = name ∧ ∃ n, w.node? path = some n) : w'.Filed where
  path {k m} hm := by
    obtain ⟨n, hn, hpath, -⟩ := hnodes.symm.exists_node hm
    rw [← hpath, hw.path hn]
  ne_empty hm := by
    obtain ⟨n, hn, -⟩ := hnodes.symm.exists_node hm
    exact hw.ne_empty hn
  parent hm _ hparent := by
    obtain ⟨n, hn, -⟩ := hnodes.symm.exists_node hm
    obtain ⟨above, habove⟩ := hw.parent hn hparent
    obtain ⟨above', habove', -⟩ := hnodes.exists_node habove
    exact ⟨above', habove'⟩
  property {k name q} hq := by
    have howned : q.owner = k ∧ q.name = name ∧ ∃ n, w.node? k = some n := by
      rcases hproperty k name q hq with hold | hnew
      · exact hw.property hold
      · exact hnew
    obtain ⟨howner, hname, n, hn⟩ := howned
    obtain ⟨n', hn', -⟩ := hnodes.exists_node hn
    exact ⟨howner, hname, n', hn'⟩

theorem Filed.changeMixins (hw : w.Filed) (hn : w.node? path = some n) (mixins : List String) :
    Filed { w with nodes := w.nodes.insert path { n with mixins := mixins } } :=
  hw.of_sameNodes (sameNodes_changeMixins hn mixins) fun _ _ _ => Or.inl

theorem Filed.holdProperty (hw : w.Filed) (hn : w.node? p.owner = some n) :
    (w.holdProperty p).Filed := by
  refine hw.of_sameNodes (sameNodes_of_nodes_eq rfl) fun k name q hq => ?_
  rw [property?_holdProperty] at hq
  by_cases hkey : p.owner = k ∧ p.name = name
  · rw [if_pos hkey] at hq
    obtain rfl := Option.some.inj hq
    exact Or.inr ⟨hkey.1, hkey.2, n, hkey.1 ▸ hn⟩
  · rw [if_neg hkey] at hq
    exact Or.inl hq

theorem Filed.withoutProperty (hw : w.Filed) (path name : String) :
    (w.withoutProperty path name).Filed := by
  refine hw.of_sameNodes (fun k => by rw [node?_withoutProperty]) fun k l q hq => ?_
  rw [property?_withoutProperty] at hq
  by_cases hkey : path = k ∧ name = l
  · rw [if_pos hkey] at hq
    exact nomatch hq
  · rw [if_neg hkey] at hq
    exact Or.inl hq

/-- Histories and the version of a state have no part in where nodes and properties are. -/
theorem Filed.of_tables (hw : w.Filed) (hnodes : w'.nodes = w.nodes)
    (hproperties : w'.properties = w.properties) : w'.Filed := by
  refine hw.of_sameNodes (sameNodes_of_nodes_eq hnodes) fun k name q hq => Or.inl ?_
  rwa [property?, hproperties] at hq

theorem property?_dropNodes (w : Workspace) (paths : List String) (k name : String) :
    (paths.foldl dropNode w).property? k name =
      if k ∈ paths then none else w.property? k name := by
  induction paths generalizing w with
  | nil => rfl
  | cons path paths ih =>
      rw [List.foldl_cons, ih, property?_dropNode]
      by_cases hk : path = k
      · simp [hk]
      · simp [Ne.symm hk, hk]

/-- A removal takes a whole subtree, so that what is left keeps its parents. -/
theorem Filed.removeSubtree (hw : w.Filed) (path : String) :
    ((w.subtree path).foldl dropNode w).Filed := by
  have hleft {k : String} {m : Node}
      (hm : ((w.subtree path).foldl dropNode w).node? k = some m) :
      ¬Path.isWithin path k = true ∧ w.node? k = some m := by
    rw [node?_removeSubtree] at hm
    by_cases hk : Path.isWithin path k = true
    · rw [if_pos hk] at hm
      exact nomatch hm
    · rw [if_neg hk] at hm
      exact ⟨hk, hm⟩
  refine ⟨fun hm => hw.path (hleft hm).2, fun hm => hw.ne_empty (hleft hm).2,
    fun hm _ hparent => ?_, fun {k name q} hq => ?_⟩
  · obtain ⟨hwithin, hm⟩ := hleft hm
    obtain ⟨above, habove⟩ := hw.parent hm hparent
    refine ⟨above, ?_⟩
    rw [node?_removeSubtree, if_neg, habove]
    exact fun h => hwithin (Path.isWithin_of_parent? hparent h)
  · rw [property?_dropNodes] at hq
    split at hq
    · exact nomatch hq
    · rename_i hkept
      obtain ⟨howner, hname, m, hm⟩ := hw.property hq
      rw [node?_dropNodes, if_neg hkept]
      exact ⟨howner, hname, m, hm⟩

/-! ### Frozen copies -/

/-- Copies are made of stored nodes. -/
theorem Filed.source_of_mem_copies (hw : w.Filed) {fuel : Nat} {source target : String}
    (hn : w.node? source = some n) {c : String × String} (hc : c ∈ w.copies fuel source target) :
    ∃ live, w.node? c.1 = some live := by
  induction fuel generalizing source target n with
  | zero =>
      rw [copies, List.mem_singleton] at hc
      exact ⟨n, by rw [hc, hn]⟩
  | succ fuel ih =>
      rw [copies, List.mem_cons] at hc
      rcases hc with rfl | hc
      · exact ⟨n, hn⟩
      · obtain ⟨child, hchild, hc⟩ := List.mem_flatMap.1 hc
        rw [List.mem_reverse, List.mem_filter] at hchild
        obtain ⟨⟨k, hk⟩, -⟩ := mem_children_iff.1 hchild.1
        rw [hw.path hk] at hc
        exact ih hk hc

/-- The copy of a child finds its parent, since it goes below the copy of the node; a child
without a name may have its copy beside that. -/
theorem supported_copies (w : Workspace) (fuel : Nat) (source : String) {target : String}
    (htarget : target ≠ "") {stored : String → Prop}
    (hparent : ∀ parent, Path.parent? target = some parent → stored parent) :
    Path.Supported stored ((w.copies fuel source target).map Prod.snd) := by
  induction fuel generalizing source target stored with
  | zero => exact ⟨htarget, hparent, trivial⟩
  | succ fuel ih =>
      refine ⟨htarget, hparent, ?_⟩
      rw [List.map_flatMap]
      refine Path.Supported.flatMap fun c _ => ?_
      refine ih c.path (Path.child_ne_empty target c.name) fun parent hchild => ?_
      rcases Path.eq_or_parent?_of_parent?_child htarget (Path.noSlash_name c.path) hchild with
        rfl | habove
      · exact Or.inl rfl
      · exact Or.inr (hparent parent habove)

theorem Filed.holdProperties (hw : w.Filed) (hn : w.node? path = some n)
    {properties : List Property} (hproperties : ∀ p ∈ properties, p.owner = path) :
    (properties.foldl Workspace.holdProperty w).Filed := by
  induction properties generalizing w with
  | nil => exact hw
  | cons p properties ih =>
      have howner := hproperties p List.mem_cons_self
      exact ih (hw.holdProperty (howner ▸ hn)) hn
        fun q hq => hproperties q (List.mem_cons_of_mem p hq)

theorem Filed.storeFrozen (hstate : state.Filed) {source target identifier : String}
    (hlive : w.node? source = some n) (htarget : target ≠ "")
    (habove : ∀ parent, Path.parent? target = some parent →
      ∃ above, state.node? parent = some above) :
    (w.storeFrozen identifier source target state).Filed := by
  rw [Workspace.storeFrozen, hlive]
  have hnode := state.node?_insertNode_plain target identifier Vocab.Name.ntFrozenNode target
  rw [if_pos rfl] at hnode
  refine (hstate.insertNode htarget habove).holdProperties hnode fun p hp => ?_
  obtain ⟨q, -, rfl⟩ := List.mem_map.1 hp
  rfl

/-- Copies of stored nodes are stored one after another, each where it finds its parent. -/
theorem Filed.storeCopies (hstate : state.Filed) (identifiers : Nat → String)
    {items : List (String × String)} (k : Nat)
    (hsource : ∀ c ∈ items, ∃ live, w.node? c.1 = some live)
    (hplaces : Path.Supported (fun path => ∃ n, state.node? path = some n)
      (items.map Prod.snd)) :
    ((items.zipIdx k).foldl
      (fun state copy => w.storeFrozen (identifiers (copy.2 + 1)) copy.1.1 copy.1.2 state)
      state).Filed := by
  induction items generalizing k state with
  | nil => exact hstate
  | cons c items ih =>
      obtain ⟨htarget, habove, hrest⟩ := hplaces
      obtain ⟨live, hlive⟩ := hsource c List.mem_cons_self
      rw [List.zipIdx_cons, List.foldl_cons]
      refine ih (hstate.storeFrozen hlive htarget habove) (k + 1)
        (fun c' hc' => hsource c' (List.mem_cons_of_mem c hc')) (hrest.mono fun path hpath => ?_)
      exact (node?_storeFrozen hlive _ _ _ _).2 hpath

theorem Filed.withHolder (hw : w.Filed) (hn : w.node? path = some n) (identifier : String)
    (s : Path.Segment) : (w.withHolder identifier (Path.child path s.text)).Filed := by
  rw [Workspace.withHolder]
  split
  · exact hw
  · refine hw.insertNode (Path.child_ne_empty path s.text) fun parent hparent => ?_
    rw [Node.plain, Path.parent?_child (hw.ne_empty hn)] at hparent
    exact ⟨n, Option.some.inj hparent ▸ hn⟩

/-- **Storing the frozen copies keeps a workspace filed.** -/
theorem Filed.withCopies (hw : w.Filed) (hn : w.node? path = some n)
    (identifiers : Nat → String) (holder s : Path.Segment) :
    (w.withCopies identifiers path (Path.child (Path.child path holder.text) s.text)
      (w.withHolder (identifiers 0) (Path.child path holder.text))).Filed := by
  refine (hw.withHolder hn (identifiers 0) holder).storeCopies identifiers 0
    (fun c hc => hw.source_of_mem_copies hn hc) ?_
  refine supported_copies w _ path (Path.child_ne_empty _ _) fun parent hparent => ?_
  rw [Path.parent?_child (Path.child_ne_empty _ _)] at hparent
  obtain rfl := Option.some.inj hparent
  exact (node?_withHolder _ _ _ _).2 (Or.inl rfl)

/-! ### References -/

/-- A property that refers to a stored node is among the references to it. -/
theorem mem_references {owner name : String} {value : Value}
    (hp : w.property? owner name = some p) (hn : w.node? path = some n) (hvalue : value ∈ p.values)
    (hkind : ReferenceKind.all.includes value = true) (htext : value.text? = some n.identifier) :
    p ∈ w.references path .all := by
  obtain ⟨held, hheld, hp⟩ := Option.bind_eq_some_iff.1 hp
  rw [references, hn]
  refine List.mem_filter.2 ⟨List.mem_flatMap.2 ⟨held, ?_, ?_⟩, ?_⟩
  · exact Table.mem_values_iff.2 ⟨owner, hheld⟩
  · exact Table.mem_values_iff.2 ⟨name, hp⟩
  · refine List.any_eq_true.2 ⟨value, hvalue, ?_⟩
    rw [hkind, htext, Bool.true_and, beq_iff_eq]

end Workspace

end LinkedStore
