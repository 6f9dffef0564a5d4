import LinkedStore.Proofs.Store.Filing

/-!
# The nodes that a version copies

A version copies a node and what is reached from it without passing a reserved name.  The list of
copies is cut off at a given depth, but as the subtree of a child is smaller than that of its
parent, the number of nodes is deep enough: the list holds a copy of every node that is reached, and
listing deeper does not change it.

## Main definitions

* `Workspace.Below` : a node is reached from a path by names that are not reserved.
* `Path.descend` : the path that lies below another one by a list of names.
* `Workspace.copiedChildren` : the children that are copied with a node.

## Main statements

* `Workspace.IsTree.of_below` : what is reached lies where the names say.
* `Workspace.IsTree.mem_copies_iff` : exactly what is reached is copied.
* `Workspace.IsTree.copies_eq` : the copies of a node are its own and those of its children.
-/

namespace LinkedStore

/-- The path that lies below another one by a list of names. -/
def Path.descend (path : String) (names : List String) : String := names.foldl Path.child path

theorem Path.descend_ofSegments (segs below : List Path.Segment) :
    descend (ofSegments segs) (below.map (·.text)) = ofSegments (segs ++ below) := by
  induction below generalizing segs with
  | nil => simp [descend]
  | cons s below ih =>
      rw [List.map_cons, descend, List.foldl_cons, child_ofSegments, ← descend, ih,
        List.append_assoc, List.singleton_append]

namespace Workspace

open LinkedStore.Path (Segment ofSegments descend)

/-- A node is reached from a path by names, none of which is reserved for frozen copies. -/
inductive Below (w : Workspace) : String → List String → Node → Prop
  | here {path : String} {n : Node} : w.node? path = some n → Below w path [] n
  | child {path : String} {c q : Node} {names : List String} : c ∈ w.children path →
      Path.beginsWith "fcr:" c.name = false → Below w c.path names q →
      Below w path (c.name :: names) q

/-- The children that are copied with a node, in the order of their paths. -/
def copiedChildren (w : Workspace) (path : String) : List Node :=
  (w.children path).filter fun n => !Path.beginsWith "fcr:" n.name

variable {w w' : Workspace} {path source target : String} {names : List String} {n c q : Node}
  {segs : List Segment}

theorem mem_copiedChildren :
    c ∈ w.copiedChildren path ↔ c ∈ w.children path ∧ Path.beginsWith "fcr:" c.name = false := by
  rw [copiedChildren, List.mem_filter, Bool.not_eq_true']

theorem Below.congr (hnodes : w'.nodes = w.nodes) (hq : w.Below path names q) :
    w'.Below path names q := by
  induction hq with
  | here hn => exact .here (by rwa [node?, hnodes])
  | child hc hname _ ih => exact .child (by rwa [children, hnodes]) hname ih

/-! ### Where a node lies that is reached -/

/-- What is reached lies below the path by the names, and is a node of the workspace. -/
theorem IsTree.of_below (hw : w.IsTree) (hq : w.Below (ofSegments segs) names q) :
    ∃ below : List Segment, names = below.map (·.text) ∧ q.path = ofSegments (segs ++ below) ∧
      w.node? q.path = some q ∧ ∀ s ∈ below, Path.beginsWith "fcr:" s.text = false := by
  generalize hpath : ofSegments segs = path at hq
  induction hq generalizing segs with
  | here hn =>
      obtain rfl := hpath
      refine ⟨[], rfl, ?_, ?_, fun _ hs => nomatch hs⟩
      · rw [hw.path hn, List.append_nil]
      · rwa [hw.path hn]
  | child hc hname _ ih =>
      obtain rfl := hpath
      obtain ⟨s, hpath, htext, -⟩ := hw.mem_children hc
      obtain ⟨below, rfl, hq, hnode, hbelow⟩ := ih hpath.symm
      rw [List.append_assoc, List.singleton_append] at hq
      refine ⟨s :: below, by rw [List.map_cons, htext], hq, hnode, fun t ht => ?_⟩
      rcases List.mem_cons.1 ht with rfl | ht
      · rw [← htext]
        exact hname
      · exact hbelow t ht

theorem IsTree.path_of_below (hw : w.IsTree) (hq : w.Below (ofSegments segs) names q) :
    q.path = descend (ofSegments segs) names := by
  obtain ⟨below, rfl, hpath, -⟩ := hw.of_below hq
  rw [hpath, Path.descend_ofSegments]

/-- Different nodes are reached by different names, so that their copies go to different places. -/
theorem IsTree.eq_of_descend_eq (hw : w.IsTree) {names' : List String} {q' : Node}
    (hq : w.Below (ofSegments segs) names q) (hq' : w.Below (ofSegments segs) names' q')
    {target : List Segment}
    (hplace : descend (ofSegments target) names = descend (ofSegments target) names') :
    q = q' := by
  obtain ⟨below, rfl, hpath, hnode, -⟩ := hw.of_below hq
  obtain ⟨below', rfl, hpath', hnode', -⟩ := hw.of_below hq'
  rw [Path.descend_ofSegments, Path.descend_ofSegments] at hplace
  have hbelow := List.append_cancel_left (Path.ofSegments_injective hplace)
  rw [hpath, hbelow, ← hpath'] at hnode
  exact Option.some.inj (hnode.symm.trans hnode')

/-- A copied child of what is reached is reached as well. -/
theorem IsTree.below_snoc (hw : w.IsTree) (hq : w.Below path names q)
    (hc : c ∈ w.copiedChildren q.path) : w.Below path (names ++ [c.name]) c := by
  induction hq with
  | here hn =>
      rw [hw.path hn] at hc
      obtain ⟨hc, hname⟩ := mem_copiedChildren.1 hc
      exact .child hc hname (.here (node?_of_mem_children hw.path hc).1)
  | child hfirst hfree _ ih => exact .child hfirst hfree (ih hc)

/-! ### The depth of a subtree -/

/-- The subtree of a child is smaller than that of its parent. -/
theorem IsTree.length_subtree_lt (hw : w.IsTree) (hn : w.node? path = some n)
    (hc : c ∈ w.children path) : (w.subtree c.path).length < (w.subtree path).length := by
  have hparent := (node?_of_mem_children hw.path hc).2
  have hself : path ∉ w.subtree c.path := fun hmem =>
    absurd (Path.length_le_of_isWithin (mem_subtree.1 hmem).2)
      (Nat.not_le_of_lt (Path.length_parent_lt hparent))
  have hnodup : (path :: w.subtree c.path).Nodup :=
    List.nodup_cons.2 ⟨hself, Std.ExtTreeMap.nodup_keys.filter _⟩
  have hsubset : path :: w.subtree c.path ⊆ w.subtree path := by
    intro k hk
    rcases List.mem_cons.1 hk with rfl | hk
    · exact mem_subtree.2 ⟨⟨n, hn⟩, Path.isWithin_self _⟩
    · obtain ⟨hstored, hwithin⟩ := mem_subtree.1 hk
      exact mem_subtree.2 ⟨hstored, Path.isWithin_trans (Path.isWithin_parent hparent) hwithin⟩
  exact (List.subperm_of_subset hnodup hsubset).length_le

theorem length_subtree_le (w : Workspace) (path : String) :
    (w.subtree path).length ≤ w.nodes.size := by
  rw [← Std.ExtTreeMap.length_keys]
  exact List.length_filter_le _ _

theorem length_subtree_pos (hn : w.node? path = some n) : 0 < (w.subtree path).length :=
  List.length_pos_of_mem (mem_subtree.2 ⟨⟨n, hn⟩, Path.isWithin_self _⟩)

/-! ### The list of copies -/

theorem copies_succ (w : Workspace) (fuel : Nat) (source target : String) :
    w.copies (fuel + 1) source target =
      (source, target) :: (w.copiedChildren source).reverse.flatMap
        fun c => w.copies fuel c.path (Path.child target c.name) := rfl

/-- Every node that is reached is copied, and nothing else. -/
theorem IsTree.mem_copies_iff (hw : w.IsTree) {fuel : Nat} (hn : w.node? source = some n)
    (hfuel : (w.subtree source).length ≤ fuel) {copy : String × String} :
    copy ∈ w.copies fuel source target ↔
      ∃ names q, w.Below source names q ∧ copy = (q.path, descend target names) := by
  induction fuel generalizing source target n with
  | zero => exact absurd (length_subtree_pos hn) (by omega)
  | succ fuel ih =>
      rw [copies_succ, List.mem_cons]
      constructor
      · rintro (rfl | hcopy)
        · exact ⟨[], n, .here hn, by rw [hw.path hn]; rfl⟩
        · obtain ⟨c, hc, hcopy⟩ := List.mem_flatMap.1 hcopy
          obtain ⟨hc, hname⟩ := mem_copiedChildren.1 (List.mem_reverse.1 hc)
          have hlt := hw.length_subtree_lt hn hc
          obtain ⟨names, q, hq, rfl⟩ :=
            (ih (node?_of_mem_children hw.path hc).1 (by omega)).1 hcopy
          exact ⟨c.name :: names, q, .child hc hname hq, rfl⟩
      · rintro ⟨names, q, hq, rfl⟩
        cases hq with
        | here hq =>
            left
            rw [hw.path hq]
            rfl
        | @child _ c _ names hc hname hq =>
            right
            have hlt := hw.length_subtree_lt hn hc
            refine List.mem_flatMap.2
              ⟨c, List.mem_reverse.2 (mem_copiedChildren.2 ⟨hc, hname⟩), ?_⟩
            exact (ih (node?_of_mem_children hw.path hc).1 (by omega)).2 ⟨names, q, hq, rfl⟩

/-- Listing one level deeper than the subtree reaches does not change the list. -/
theorem IsTree.copies_stable (hw : w.IsTree) {fuel : Nat} (hn : w.node? source = some n)
    (hfuel : (w.subtree source).length ≤ fuel) (target : String) :
    w.copies (fuel + 1) source target = w.copies fuel source target := by
  induction fuel generalizing source target n with
  | zero => exact absurd (length_subtree_pos hn) (by omega)
  | succ fuel ih =>
      rw [copies_succ, copies_succ]
      congr 1
      refine List.flatMap_congr fun c hc => ?_
      obtain ⟨hc, -⟩ := mem_copiedChildren.1 (List.mem_reverse.1 hc)
      have hlt := hw.length_subtree_lt hn hc
      exact ih (node?_of_mem_children hw.path hc).1 (by omega) _

/-- The copies of a node are its own and, the last child first, those of its children. -/
theorem IsTree.copies_eq (hw : w.IsTree) (hn : w.node? source = some n) (target : String) :
    w.copies w.nodes.size source target =
      (source, target) :: (w.copiedChildren source).reverse.flatMap
        fun c => w.copies w.nodes.size c.path (Path.child target c.name) := by
  rw [← hw.copies_stable hn (w.length_subtree_le source), copies_succ]

end Workspace

end LinkedStore
