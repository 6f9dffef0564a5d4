import LinkedStore.Proofs.Host.Refusal
import LinkedStore.Proofs.Host.Snapshot
import LinkedStore.Proofs.Host.Tree

/-!
# What a removal takes away

A removal finds the nodes that it takes by the texts of their paths, while what lies below a node is
told by the chain of parents.  Where no stored path has an empty segment, the two are the same: the
nodes that go are those from which the chain of parents leads to the removed one, and with them go
their identifiers, properties and histories.  A sibling stays, with all that lies below it, even if
its name begins with the name of the node that is removed.

A node that comes to the path later finds nothing there, since properties, histories and children
belong to stored nodes in every state of a host.

## Main definitions

* `Workspace.ForgetsNode` : nothing is recorded of a node any more.
* `Workspace.AgreesAt` : two states hold and record the same at a path.
* `Workspace.LosesSubtree` : a state has lost a node with all that lies below it, and nothing else.
* `Workspace.StartsAnew` : a node has been created where nothing was.
* `Host.RemovesSubtree` : what a removal does to the state that a session works on.

## Main statements

* `Workspace.Identified.losesSubtree` : taking a subtree out loses it.
* `Host.startsAnew_of_free` : what is created at a free path starts anew.
* `Host.removesSubtree_of_stored` : the removal of a stored node removes its subtree.
-/

namespace LinkedStore

namespace Workspace

/-- Nothing is recorded any more of a node that has been stored at a path. -/
structure ForgetsNode (w : Workspace) (path : String) (n : Node) : Prop where
  identifier : w.identifiers[n.identifier]? = none
  properties : w.properties[path]? = none
  history : w.history? path = none

/-- Two states hold the same at a path: the same node, if any, which is found by its identifier in
both, with the same properties and the same history. -/
structure AgreesAt (w w' : Workspace) (path : String) : Prop where
  node : w'.node? path = w.node? path
  identifier : ∀ n, w.node? path = some n →
    w.identifiers[n.identifier]? = some path ∧ w'.identifiers[n.identifier]? = some path
  properties : w'.properties[path]? = w.properties[path]?
  history : w'.history? path = w.history? path

/-- A state has lost the node at a path with all nodes below it, and nothing else. -/
structure LosesSubtree (top : String) (w w' : Workspace) : Prop where
  /-- A node is gone exactly if the chain of parents from it leads to the path. -/
  gone_iff : ∀ path n, w.node? path = some n →
    (w'.node? path = none ↔ top ∈ path :: Path.ancestors path)
  forgets : ∀ path n, w.node? path = some n → top ∈ path :: Path.ancestors path →
    w'.ForgetsNode path n
  agrees : ∀ path, top ∉ path :: Path.ancestors path → AgreesAt w w' path
  /-- A sibling of the node stays with all that lies below it, whatever its name is. -/
  siblings : ∀ sibling path, Path.parent? sibling = Path.parent? top → sibling ≠ top →
    sibling ∈ path :: Path.ancestors path → AgreesAt w w' path
  /-- The identifiers of other nodes lead where they have led. -/
  identifiers : ∀ identifier, (∀ path n, w.node? path = some n →
    top ∈ path :: Path.ancestors path → n.identifier ≠ identifier) →
      w'.identifiers[identifier]? = w.identifiers[identifier]?
  version : w'.version = w.version

variable {w : Workspace} {n : Node} {path top identifier : String} {paths : List String}

/-! ### Taking nodes out -/

theorem properties_dropNodes (w : Workspace) (paths : List String) (k : String) :
    (paths.foldl dropNode w).properties[k]? = if k ∈ paths then none else w.properties[k]? := by
  induction paths generalizing w with
  | nil => rfl
  | cons path paths ih =>
      have hdrop : (w.dropNode path).properties[k]? =
          if path = k then none else w.properties[k]? := Table.getElem?_erase ..
      rw [List.foldl_cons, ih, hdrop]
      by_cases hk : path = k
      · simp [hk]
      · simp [Ne.symm hk, hk]

/-- The identifier of a node that is taken out leads nowhere. -/
theorem identifiers_dropNodes_of_mem (hmem : path ∈ paths) (hn : w.node? path = some n) :
    (paths.foldl dropNode w).identifiers[n.identifier]? = none := by
  induction paths generalizing w with
  | nil => exact nomatch hmem
  | cons k paths ih =>
      rw [List.foldl_cons]
      by_cases hk : k = path
      · subst hk
        rw [Option.eq_none_iff_forall_ne_some]
        intro held hheld
        have hleft := identifiers_of_dropNodes hheld
        rw [identifiers_dropNode hn, if_pos rfl] at hleft
        exact nomatch hleft
      · refine ih ((List.mem_cons.1 hmem).resolve_left (Ne.symm hk)) ?_
        rw [node?_dropNode, if_neg hk, hn]

/-- An identifier leads where it has led, if no node that is taken out bears it. -/
theorem identifiers_dropNodes_of_forall
    (h : ∀ path ∈ paths, ∀ n, w.node? path = some n → n.identifier ≠ identifier) :
    (paths.foldl dropNode w).identifiers[identifier]? = w.identifiers[identifier]? := by
  induction paths generalizing w with
  | nil => rfl
  | cons path paths ih =>
      rw [List.foldl_cons, ih]
      · cases hn : w.node? path with
        | none => rw [identifiers_dropNode_of_free hn]
        | some n => rw [identifiers_dropNode hn, if_neg (h path List.mem_cons_self n hn)]
      · intro k hk m hm
        rw [node?_dropNode] at hm
        split at hm
        · exact nomatch hm
        · exact h k (List.mem_cons_of_mem path hk) m hm

/-- Where all stored paths are proper, a subtree is what the chains of parents tell. -/
theorem mem_subtree_iff_mem_chain (hproper : w.AllStored Path.Proper) (htop : top ≠ "") :
    path ∈ w.subtree top ↔
      (∃ n, w.node? path = some n) ∧ top ∈ path :: Path.ancestors path := by
  rw [mem_subtree]
  refine and_congr_right fun ⟨n, hn⟩ => ?_
  exact (hproper path n hn).isWithin_iff_mem htop

/-- A removal leaves the identifiers alone that are borne by no node that it takes. -/
theorem identifiers_removeSubtree (hproper : w.AllStored Path.Proper) (htop : top ≠ "")
    (hother : ∀ path n, w.node? path = some n → top ∈ path :: Path.ancestors path →
      n.identifier ≠ identifier) :
    ((w.subtree top).foldl dropNode w).identifiers[identifier]? = w.identifiers[identifier]? :=
  identifiers_dropNodes_of_forall fun path hpath n hn =>
    hother path n hn ((mem_subtree_iff_mem_chain hproper htop).1 hpath).2

/-- Where the chain of parents does not lead to the path, nothing changes. -/
theorem Identified.agreesAt_removeSubtree (hw : w.Identified)
    (hproper : w.AllStored Path.Proper) (htop : top ≠ "")
    (hpath : top ∉ path :: Path.ancestors path) :
    AgreesAt w ((w.subtree top).foldl Workspace.dropNode w) path := by
  have hkept : path ∉ w.subtree top :=
    fun hmem => hpath ((mem_subtree_iff_mem_chain hproper htop).1 hmem).2
  refine
    { node := by rw [node?_dropNodes, if_neg hkept]
      identifier := fun n hn => ⟨hw.leads hn, ?_⟩
      properties := by rw [properties_dropNodes, if_neg hkept]
      history := by rw [history?_dropNodes, if_neg hkept] }
  rw [identifiers_removeSubtree hproper htop, hw.leads hn]
  -- No node that goes bears the identifier, since the identifier leads to one node only.
  intro k m hm hk hsame
  have hleads := hw.leads hm
  rw [hsame, hw.leads hn] at hleads
  exact hpath (Option.some.inj hleads ▸ hk)

/-- **Taking a subtree out loses it and nothing else**, if no stored path has an empty segment. -/
theorem Identified.losesSubtree (hw : w.Identified) (hproper : w.AllStored Path.Proper)
    (htop : top ≠ "") :
    LosesSubtree top w ((w.subtree top).foldl Workspace.dropNode w) where
  gone_iff path n hn := by
    rw [node?_dropNodes]
    constructor
    · intro hgone
      by_cases hmem : path ∈ w.subtree top
      · exact ((mem_subtree_iff_mem_chain hproper htop).1 hmem).2
      · rw [if_neg hmem, hn] at hgone
        exact nomatch hgone
    · exact fun hpath => if_pos ((mem_subtree_iff_mem_chain hproper htop).2 ⟨⟨n, hn⟩, hpath⟩)
  forgets path n hn hpath := by
    have hmem := (mem_subtree_iff_mem_chain hproper htop).2 ⟨⟨n, hn⟩, hpath⟩
    exact
      { identifier := identifiers_dropNodes_of_mem hmem hn
        properties := by rw [properties_dropNodes, if_pos hmem]
        history := by rw [history?_dropNodes, if_pos hmem] }
  agrees _ := hw.agreesAt_removeSubtree hproper htop
  siblings sibling path hparent hne hsibling :=
    hw.agreesAt_removeSubtree hproper htop fun hpath =>
      hne (Path.eq_of_mem_chain hsibling hpath hparent)
  identifiers _ := identifiers_removeSubtree hproper htop
  version := version_foldl (f := Workspace.dropNode) w (fun _ _ => rfl) _

/-- The parent of a node stays where it is when the node is taken out. -/
theorem node?_removeSubtree_of_parent? {parent : String} (w : Workspace)
    (hparent : Path.parent? path = some parent) :
    ((w.subtree path).foldl Workspace.dropNode w).node? parent = w.node? parent := by
  have hkept : ¬Path.isWithin path parent = true := fun h =>
    absurd (Path.length_le_of_isWithin h) (Nat.not_le.2 (Path.length_parent_lt hparent))
  rw [node?_removeSubtree, if_neg hkept]

/-! ### Histories -/

variable {w' : Workspace}

/-- A change that keeps what is stored and adds histories to stored nodes only. -/
theorem OwnsHistories.of_stored (hw : w.OwnsHistories)
    (hstored : ∀ path n, w.node? path = some n → ∃ n', w'.node? path = some n')
    (hhistory : ∀ path history, w'.history? path = some history →
      (∃ held, w.history? path = some held) ∨ ∃ n, w.node? path = some n) :
    w'.OwnsHistories := by
  intro path history hheld
  obtain ⟨n, hn⟩ : ∃ n, w.node? path = some n := by
    rcases hhistory path history hheld with ⟨held, hold⟩ | hn
    · exact hw path held hold
    · exact hn
  exact hstored path n hn

theorem OwnsHistories.of_sameNodes (hw : w.OwnsHistories) (hnodes : SameNodes w w')
    (hhistory : ∀ path, w'.history? path = w.history? path) : w'.OwnsHistories := by
  refine hw.of_stored (fun path n hn => ?_) fun path history hheld => .inl ⟨history, ?_⟩
  · obtain ⟨n', hn', -⟩ := hnodes.exists_node hn
    exact ⟨n', hn'⟩
  · rw [← hhistory, hheld]

theorem OwnsHistories.insertHistory (hw : w.OwnsHistories) (hn : w.node? path = some n)
    (history : VersionHistory) :
    OwnsHistories { w with histories := w.histories.insert path history } := by
  refine hw.of_stored (fun _ n hn => ⟨n, hn⟩) fun k held hheld => ?_
  rw [history?, Table.getElem?_insert] at hheld
  split at hheld
  · rename_i hk
    exact .inr ⟨n, hk ▸ hn⟩
  · exact .inl ⟨held, hheld⟩

theorem OwnsHistories.dropNodes (hw : w.OwnsHistories) (paths : List String) :
    (paths.foldl Workspace.dropNode w).OwnsHistories := by
  intro path history hheld
  rw [history?_dropNodes] at hheld
  split at hheld
  · exact nomatch hheld
  · rename_i hkept
    rw [node?_dropNodes, if_neg hkept]
    exact hw path history hheld

theorem ownsHistories_empty : empty.OwnsHistories :=
  fun _ _ hheld => nomatch Std.ExtTreeMap.getElem?_empty.symm.trans hheld

theorem ownsHistories_withRoot (identifier : String) : (withRoot identifier).OwnsHistories :=
  fun _ _ hheld => nomatch Std.ExtTreeMap.getElem?_empty.symm.trans hheld

end Workspace

/-! ### Nodes that have just been created -/

/-- Only the creation of a binary adds a node below its own one, which is the content. -/
def Mutation.AddsBelow (m : Mutation) (path below : String) : Prop :=
  below = Path.child path Vocab.Name.content ∧
    ∃ bytes mimeType, m = .createBinary path bytes mimeType

namespace Workspace

variable {w : Workspace} {path : String}

/-- The node at the path of a creation, if there is one, has been created by it: it bears the
identifier that was drawn, owns the properties that it was created with and no others, and has no
history, and there is nothing below it that the creation has not added. -/
structure StartsAnew (d : Draws) (m : Mutation) (path : String) (w : Workspace) : Prop
    extends Newborn (d.identifier 0) (m.firstProperties d) path w where
  child : ∀ n ∈ w.children path, m.AddsBelow path n.path

theorem Filed.startsAnew_of_free (hw : w.Filed) (howns : w.OwnsHistories)
    (hfree : w.node? path = none) (d : Draws) (m : Mutation) : w.StartsAnew d m path where
  node _ hn := nomatch hfree.symm.trans hn
  property name p hp := by
    obtain ⟨-, -, n, hn⟩ := hw.property hp
    exact nomatch hfree.symm.trans hn
  history := howns.history?_of_free hfree
  child n hn := by
    obtain ⟨hnode, hparent⟩ := node?_of_mem_children hw.path hn
    obtain ⟨above, habove⟩ := hw.parent hnode hparent
    exact nomatch hfree.symm.trans habove

end Workspace

namespace Edit

open Workspace

variable {α : Type} {d : Draws} {m : Mutation} {path : String} {Q : String → Prop}

/-- **No edit leaves a history behind** whose node is gone. -/
theorem kept_ownsHistories : Kept OwnsHistories where
  addNodeAt identifier path primaryType :=
    leads_addNodeAt (fun _ => id) fun _ _ _ hw _ _ _ =>
      hw.of_stored (fun _ _ hn => exists_node?_insertNode _ hn) fun _ held hheld =>
        .inl ⟨held, hheld⟩
  changeMixins path change :=
    leads_changeMixins (fun _ => id) fun _ _ hw hn =>
      hw.of_sameNodes (sameNodes_changeMixins hn _) fun _ => rfl
  removeNode path :=
    leads_removeNode (fun _ => id) fun w _ hw _ => hw.dropNodes (w.subtree path)
  putProperty p :=
    leads_putProperty (fun _ => id) fun _ _ hw _ =>
      hw.of_sameNodes (sameNodes_of_nodes_eq rfl) fun _ => rfl
  removeProperty path name :=
    leads_removeProperty (fun _ => id) fun _ hw =>
      hw.of_sameNodes (fun k => by rw [node?_withoutProperty]) fun k => history?_withoutProperty ..
  checkin identifiers path labels created := by
    refine leads_checkin (Q := OwnsHistories) (fun _ => id)
      (fun _ _ hw hn => hw.insertHistory hn _) fun count => ?_
    refine leads_freeze_version (fun _ => id) fun w hw => ?_
    refine hw.of_stored (fun k n hn => ?_) fun k history hheld => .inl ⟨history, ?_⟩
    · exact exists_node?_storeCopies identifiers 0 _ ((node?_withHolder ..).2 (.inr ⟨n, hn⟩))
    · rw [← history?_withCopies, hheld]
  addVersionLabel path version label :=
    leads_addVersionLabel (fun _ => id) fun w history hw hheld => by
      obtain ⟨n, hn⟩ := hw path history hheld
      exact hw.insertHistory hn _

theorem allStored_addNodeAt {identifier primaryType : String} (hpath : Q path) :
    Leads (AllStored Q) (AllStored Q) (addNodeAt identifier path primaryType) :=
  leads_addNodeAt (fun _ => id) fun _ _ _ hw _ _ _ => hw.of_stored fun k m hm => by
    rw [node?_insertNode_plain] at hm
    split at hm
    · rename_i hk
      exact .inr (hk ▸ hpath)
    · exact .inl ⟨m, hm⟩

theorem allStored_changeMixins (change : List String → List String) :
    Leads (AllStored Q) (AllStored Q) (changeMixins path change) :=
  leads_changeMixins (fun _ => id) fun _ _ hw hn => hw.of_sameNodes (sameNodes_changeMixins hn _)

theorem allStored_putProperty (p : Property) :
    Leads (AllStored Q) (AllStored Q) (putProperty p) :=
  leads_putProperty (fun _ => id) fun _ _ hw _ => hw.of_sameNodes (sameNodes_of_nodes_eq rfl)

/-- A creation adds a node at its path, and the content with a binary, but no other node. -/
theorem allStored_creation (hnew : m.newPath? = some path) (hpath : Q path)
    (hcontent : ∀ bytes mimeType, m = .createBinary path bytes mimeType →
      Q (Path.child path Vocab.Name.content)) :
    Leads (AllStored Q) (AllStored Q) (m.edit d) := by
  cases m with
  | addNode newPath primaryType =>
      obtain rfl := Option.some.inj hnew
      exact leads_map (allStored_addNodeAt hpath)
  | createContainer newPath =>
      obtain rfl := Option.some.inj hnew
      exact leads_map (leads_createContainer (allStored_addNodeAt hpath)
        (allStored_changeMixins _) fun p _ => allStored_putProperty p)
  | createBinary newPath bytes mimeType =>
      obtain rfl := Option.some.inj hnew
      exact leads_map (leads_createBinary bytes mimeType (allStored_addNodeAt hpath)
        (allStored_changeMixins _) (fun p _ => allStored_putProperty p) (fun _ => id)
        (allStored_addNodeAt (hcontent bytes mimeType rfl)) (allStored_changeMixins _)
        fun p _ => allStored_putProperty p)
  | _ => exact nomatch hnew

/-- What a mutation creates where nothing is starts anew. -/
theorem startsAnew_edit (d : Draws) (hnew : m.newPath? = some path) (hpath : Path.Proper path) :
    Leads (fun w => w.Filed ∧ w.StartsAnew d m path) (StartsAnew d m path) (m.edit d) := by
  rintro w ⟨hfiled, hw⟩
  have hleft : (leftBy (m.edit d) w).Filed := kept_filed.edit d m w hfiled
  have hself : Path.parent? path = some path → m.AddsBelow path path :=
    fun hparent => absurd (Path.length_parent_lt hparent) (Nat.lt_irrefl _)
  have hbefore : w.AllStored fun q => Path.parent? q = some path → m.AddsBelow path q := by
    intro q n hn hparent
    have hq := hfiled.path hn
    subst hq
    exact hw.child n (mem_children_iff.2 ⟨⟨n.path, hn⟩, hparent⟩)
  have hafter := allStored_creation (d := d) hnew hself
    (fun bytes mimeType hm _ => ⟨rfl, bytes, mimeType, hm⟩) w hbefore
  refine { newborn_edit_of_newborn d hnew (hpath.child_ne .content) w hw.toNewborn with
    child := fun n hn => ?_ }
  obtain ⟨hnode, hparent⟩ := node?_of_mem_children hleft.path hn
  exact hafter n.path n hnode hparent

end Edit

/-! ### Removals on a session -/

namespace Host

variable {r : Repository} {calls : List Call} {number : Nat} {m : Mutation} {path : String}

theorem ownsHistories_current (hr : r.IsNew) (calls : List Call) (number : Nat) :
    (((Host.mk r []).run calls).current number).OwnsHistories :=
  of_holds hr Workspace.ownsHistories_empty Workspace.ownsHistories_withRoot (fun _ _ => id)
    Edit.kept_ownsHistories (holds_current _ number)

/-- **What is created at a free path starts anew**, whatever was at the path before. -/
theorem startsAnew_of_free (hr : r.IsNew) (hpath : Path.Proper path)
    (hnew : m.newPath? = some path)
    (hfree : (((Host.mk r []).run calls).current number).node? path = none) (d : Draws) :
    ((((Host.mk r []).run calls).after (.mutate number d m)).current number).StartsAnew d m
      path := by
  have hfiled := filed_current hr calls number
  have hbefore := hfiled.startsAnew_of_free (ownsHistories_current hr calls number) hfree d m
  rcases current_after_mutate ((Host.mk r []).run calls) number d m with hmade | hsame
  · rw [hmade]
    exact Edit.startsAnew_edit d hnew hpath _ ⟨hfiled, hbefore⟩
  · rw [hsame]
    exact hbefore

/-- On an open session a node can be added below a stored node at a free path. -/
theorem mutate_addNode_run {h : Host} (hlive : (h.session number).live = true) {parent : String}
    (hparent : Path.parent? path = some parent) {above : Node}
    (habove : (h.current number).node? parent = some above)
    (hfree : (h.current number).node? path = none) (d : Draws) (primaryType : String) :
    (mutate number d (.addNode path primaryType)).run h =
      .ok (.node (.plain path (d.identifier 0) primaryType))
        (h.after (.mutate number d (.addNode path primaryType))) := by
  have horphan : (Mutation.addNode path primaryType).orphan? = none := by
    simp [Mutation.orphan?, Mutation.newPath?, hparent]
  have hedit : ((Mutation.addNode path primaryType).edit d).run (h.current number) =
      .ok (.node (.plain path (d.identifier 0) primaryType))
        ((h.current number).insertNode (.plain path (d.identifier 0) primaryType)) := by
    rw [Mutation.edit, map_eq_pure_bind, EStateM.run_bind,
      Edit.addNodeAt_run_of_free hparent habove hfree]
    rfl
  exact (mutate_run_of_edit hlive horphan hedit).1

/-- What the removal of a node on a session leaves. -/
structure RemovesSubtree (h : Host) (number : Nat) (path : String) (h' : Host) : Prop where
  loses : Workspace.LosesSubtree path (h.current number) (h'.current number)
  /-- A node may be added at the path at once, unless it is that of the root. -/
  reopens : path ≠ "/" → ∀ d primaryType,
    (mutate number d (.addNode path primaryType)).run h' =
      .ok (.node (.plain path (d.identifier 0) primaryType))
        (h'.after (.mutate number d (.addNode path primaryType)))
  /-- Whatever happens next, a node that is created at the path while it is free starts anew. -/
  anew : ∀ later another d m, m.newPath? = some path →
    ((h'.run later).current another).node? path = none →
    (((h'.run later).after (.mutate another d m)).current another).StartsAnew d m path

/-- **The removal of a stored node removes exactly its subtree**, if no stored path has an empty
segment and every identifier that is drawn is new. -/
theorem removesSubtree_of_stored (hr : r.IsNew) (hfresh : Fresh r calls)
    (hproper : (((Host.mk r []).run calls).current number).AllStored Path.Proper)
    (hlive : (((Host.mk r []).run calls).session number).live = true) {n : Node}
    (hn : (((Host.mk r []).run calls).current number).node? path = some n) (d : Draws) :
    ∃ h', (mutate number d (.removeNode path)).run ((Host.mk r []).run calls) = .ok .done h' ∧
      ((Host.mk r []).run calls).RemovesSubtree number path h' := by
  obtain ⟨segs, hsegs⟩ := hproper path n hn
  have hedit : ((Mutation.removeNode path).edit d).run
      (((Host.mk r []).run calls).current number) = .ok .done
        ((((Host.mk r []).run calls).current number).subtree path |>.foldl Workspace.dropNode
          (((Host.mk r []).run calls).current number)) := by
    rw [Mutation.edit, map_eq_pure_bind, EStateM.run_bind, Workspace.removeNode_run, hn]
    rfl
  obtain ⟨hrun, hcurrent⟩ := mutate_run_of_edit hlive rfl hedit
  refine ⟨_, hrun, ?_, fun hroot d' primaryType => ?_, fun later another d' m hnew hfree => ?_⟩
  · rw [hcurrent]
    exact (identified_current hr hfresh number).losesSubtree hproper
      (hsegs ▸ Path.ofSegments_ne_empty segs)
  · rcases List.eq_nil_or_concat segs with rfl | ⟨front, s, rfl⟩
    · exact absurd hsegs hroot
    · rw [List.concat_eq_append] at hsegs
      have hparent : Path.parent? path = some (Path.ofSegments front) := by
        rw [hsegs, Path.parent?_ofSegments]
      obtain ⟨above, habove⟩ := (filed_current hr calls number).parent hn hparent
      have hstored := (Workspace.node?_removeSubtree_of_parent? _ hparent).trans habove
      rw [← hcurrent] at hstored
      refine mutate_addNode_run (live_of_mutate rfl hrun).2 hparent hstored ?_ d' primaryType
      rw [hcurrent, Workspace.node?_removeSubtree, if_pos (Path.isWithin_iff.2 (.inl rfl))]
  · have hcalls (c : Call) : (((Host.mk r []).run calls).after c).run later =
        (Host.mk r []).run (calls ++ c :: later) := by
      rw [run, run, run, List.foldl_append, List.foldl_cons]
    rw [hcalls] at hfree ⊢
    exact startsAnew_of_free hr ⟨segs, hsegs⟩ hnew hfree d'

/-- A run that checks a container in, gives it a child with a property, and adds a sibling whose
name begins with its name. -/
def planting : List Call :=
  runOf [.createContainer "/a", .addMixin "/a" Vocab.Name.mixVersionable, .checkin "/a" [] none,
    .createContainer "/a/b", .putProperty (.single "/a/b" "dc:title" (.string "b")),
    .createContainer "/ab"]

theorem proper_planting :
    (((Host.start "root").run planting).current 0).AllStored Path.Proper :=
  let a : Path.Segment := ⟨"a", by decide, by decide⟩
  fun _ _ => Workspace.proper_of_keys
    [[], [a], [a, ⟨"b", by decide, by decide⟩], [a, .holder], [a, .holder, .version 0],
      [⟨"ab", by decide, by decide⟩]] (by decide +kernel)

/-- The removal of the container takes its child and the frozen copy with it, and leaves the
sibling. -/
theorem removesSubtree_of_stored_planting :
    let h := (Host.start "root").run planting
    (h.current 0).nodes.keys =
        ["/", "/a", "/a/b", "/a/fcr:versions", "/a/fcr:versions/1.0", "/ab"] ∧
      ∃ h', (mutate 0 (numbered 6) (.removeNode "/a")).run h = .ok .done h' ∧
        h.RemovesSubtree 0 "/a" h' ∧ (h'.current 0).nodes.keys = ["/", "/ab"] := by
  intro h
  have hstored : ((h.current 0).node? "/a").isSome = true := by decide +kernel
  obtain ⟨n, hn⟩ := Option.isSome_iff_exists.1 hstored
  obtain ⟨h', hrun, hremoves⟩ := removesSubtree_of_stored (Repository.isNew_start "root")
    (fresh_runOf _) proper_planting (by decide +kernel) hn (numbered 6)
  refine ⟨by decide +kernel, h', hrun, hremoves, ?_⟩
  rw [(session_run_of_mutate hrun).1]
  decide +kernel

end Host

end LinkedStore
