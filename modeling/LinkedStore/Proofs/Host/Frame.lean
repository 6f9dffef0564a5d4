import LinkedStore.Proofs.Host.Absolute
import LinkedStore.Proofs.Host.Filing
import LinkedStore.Proofs.Host.Ledger
import LinkedStore.Proofs.Host.Removal

/-!
# What mutations leave alone

A mutation touches few paths, and which ones can be read off its arguments: the path that it is
given, the content below a new binary, all that lies within a removed node, and all that lies within
the holder of the versions of a node that is checked in.  Whether it succeeds or is refused, and
whatever is stored, the node, the properties and the history at every other path are as they were.

## Main definitions

* `Mutation.Touches` : a mutation may change what is held at a path.
* `Workspace.SameAt` : two states hold the same at a path.

## Main statements

* `Edit.keepsAt_edit` : a mutation keeps what is held at a path that it does not touch.
* `Workspace.sameAt_replay` : so do mutations that are replayed on a state.
-/

namespace LinkedStore

/-- A mutation may change what is held at a path. -/
def Mutation.Touches : Mutation → String → Prop
  | addNode path _, k | createContainer path, k => k = path
  | createBinary path _ _, k => k = path ∨ k = Path.child path Vocab.Name.content
  | addMixin path _, k | removeMixin path _, k => k = path
  | removeNode path, k => Path.isWithin path k = true
  | putProperty p, k => k = p.owner
  | removeProperty path _, k => k = path
  | checkin path _ _, k =>
      k = path ∨ Path.isWithin (Path.child path Vocab.Name.versionsHolder) k = true
  | addVersionLabel path _ _, k => k = path

namespace Workspace

/-- Two states hold the same at a path: the same node, if any, with the same properties and the same
history. -/
structure SameAt (w w' : Workspace) (path : String) : Prop where
  node : w'.node? path = w.node? path
  properties : w'.properties[path]? = w.properties[path]?
  history : w'.history? path = w.history? path

variable {w w' w'' : Workspace} {path k : String} {places : String → Prop}

theorem SameAt.refl (w : Workspace) (path : String) : SameAt w w path := ⟨rfl, rfl, rfl⟩

theorem SameAt.trans (h : SameAt w w' path) (h' : SameAt w' w'' path) : SameAt w w'' path where
  node := h'.node.trans h.node
  properties := h'.properties.trans h.properties
  history := h'.history.trans h.history

theorem DiffersAt.sameAt (h : DiffersAt places w w') (hpath : ¬places path) :
    SameAt w w' path where
  node := h.node path hpath
  properties := h.properties path hpath
  history := h.history path

theorem SameAt.property? (h : SameAt w w' path) (name : String) :
    w'.property? path name = w.property? path name := by
  rw [Workspace.property?, h.properties, Workspace.property?]

theorem SameAt.propertiesOf (h : SameAt w w' path) :
    w'.propertiesOf path = w.propertiesOf path := by
  rw [Workspace.propertiesOf, h.properties, Workspace.propertiesOf]

/-! ### Single changes -/

theorem sameAt_insertAt (w : Workspace) (n : Node) (hpath : k ≠ path) :
    SameAt w { w with nodes := w.nodes.insert path n } k where
  node := (Table.getElem?_insert ..).trans (if_neg (Ne.symm hpath))
  properties := rfl
  history := rfl

theorem sameAt_insertHistory (w : Workspace) (history : VersionHistory) (hpath : k ≠ path) :
    SameAt w { w with histories := w.histories.insert path history } k where
  node := rfl
  properties := rfl
  history := (Table.getElem?_insert ..).trans (if_neg (Ne.symm hpath))

theorem sameAt_withoutProperty (w : Workspace) (name : String) (hpath : k ≠ path) :
    SameAt w (w.withoutProperty path name) k where
  node := w.node?_withoutProperty path name k
  properties := by
    rw [withoutProperty]
    cases w.properties[path]? with
    | none => rfl
    | some held => exact (Table.getElem?_insert ..).trans (if_neg (Ne.symm hpath))
  history := w.history?_withoutProperty path name k

theorem sameAt_removeSubtree (w : Workspace) (hpath : ¬Path.isWithin path k = true) :
    SameAt w ((w.subtree path).foldl dropNode w) k := by
  have hmem : k ∉ w.subtree path := fun hmem => hpath (mem_subtree.1 hmem).2
  refine ⟨?_, ?_, ?_⟩
  · rw [node?_dropNodes, if_neg hmem]
  · rw [properties_dropNodes, if_neg hmem]
  · rw [history?_dropNodes, if_neg hmem]

/-- Copies lie within the place of the first of them. -/
theorem isWithin_of_mem_copies {fuel : Nat} {source target : String} {c : String × String}
    (hc : c ∈ w.copies fuel source target) : Path.isWithin target c.2 = true := by
  induction fuel generalizing source target with
  | zero =>
      rw [copies, List.mem_singleton] at hc
      exact hc ▸ Path.isWithin_self target
  | succ fuel ih =>
      rw [copies, List.mem_cons] at hc
      rcases hc with rfl | hc
      · exact Path.isWithin_self target
      · obtain ⟨child, -, hc⟩ := List.mem_flatMap.1 hc
        exact Path.isWithin_trans (Path.isWithin_child target child.name) (ih hc)

/-- A freeze changes nothing outside of the holder of its copies. -/
theorem sameAt_withCopies (w : Workspace) (identifiers : Nat → String) {source holder : String}
    (name identifier : String) (hholder : ¬Path.isWithin holder k = true) :
    SameAt w (w.withCopies identifiers source (Path.child holder name)
      (w.withHolder identifier holder)) k := by
  refine ((differsAt_withHolder w identifier holder).sameAt ?_).trans
    ((differsAt_storeCopies w identifiers 0 _ _).sameAt ?_)
  · rintro rfl
    exact hholder (Path.isWithin_self k)
  · intro hmem
    obtain ⟨c, hc, rfl⟩ := List.mem_map.1 hmem
    exact hholder
      (Path.isWithin_trans (Path.isWithin_child holder name) (isWithin_of_mem_copies hc))

end Workspace

/-! ### Edits -/

namespace Edit

open Workspace

variable {α : Type} {w₀ : Workspace} {path k : String}

/-- On states that hold at a path what `w₀` holds there, an edit leaves such states. -/
def KeepsAt (w₀ : Workspace) (k : String) (e : Edit α) : Prop :=
  Leads (w₀.SameAt · k) (w₀.SameAt · k) e

theorem keepsAt_addNodeAt (identifier primaryType : String) (hpath : k ≠ path) :
    KeepsAt w₀ k (addNodeAt identifier path primaryType) :=
  leads_addNodeAt (fun _ => id) fun w _ _ hw _ _ _ =>
    hw.trans ((differsAt_insertNode w _).sameAt hpath)

theorem keepsAt_changeMixins (change : List String → List String) (hpath : k ≠ path) :
    KeepsAt w₀ k (changeMixins path change) :=
  leads_changeMixins (fun _ => id) fun w _ hw _ => hw.trans (w.sameAt_insertAt _ hpath)

theorem keepsAt_putProperty {p : Property} (hpath : k ≠ p.owner) :
    KeepsAt w₀ k (putProperty p) :=
  leads_putProperty (fun _ => id) fun w _ hw _ =>
    hw.trans ((differsAt_holdProperty w p).sameAt hpath)

theorem keepsAt_checkin (identifiers : Nat → String) (labels : List String) (created : Instant)
    (hpath : k ≠ path)
    (hholder : ¬Path.isWithin (Path.child path Vocab.Name.versionsHolder) k = true) :
    KeepsAt w₀ k (checkin identifiers path labels created) :=
  leads_checkin (fun _ => id) (fun w _ hw _ => hw.trans (w.sameAt_insertHistory _ hpath))
    fun _ => leads_freeze_version (fun _ => id) fun w hw =>
      hw.trans (w.sameAt_withCopies identifiers _ _ hholder)

/-- **A mutation keeps what is held at a path that it does not touch**, whether it succeeds or is
refused. -/
theorem keepsAt_edit (d : Draws) {m : Mutation} (hpath : ¬m.Touches k) :
    KeepsAt w₀ k (m.edit d) := by
  cases m with
  | addNode path primaryType => exact leads_map (keepsAt_addNodeAt _ _ hpath)
  | createContainer path =>
      exact leads_map (leads_createContainer (keepsAt_addNodeAt _ _ hpath)
        (keepsAt_changeMixins _ hpath)
        fun _ hp => keepsAt_putProperty (owner_of_mem_stamps hp ▸ hpath))
  | createBinary path bytes mimeType =>
      obtain ⟨hpath, hcontent⟩ := not_or.1 hpath
      exact leads_map (leads_createBinary bytes mimeType (keepsAt_addNodeAt _ _ hpath)
        (keepsAt_changeMixins _ hpath)
        (fun _ hp => keepsAt_putProperty (owner_of_mem_stamps hp ▸ hpath)) (fun _ => id)
        (keepsAt_addNodeAt _ _ hcontent) (keepsAt_changeMixins _ hcontent)
        fun _ howner => keepsAt_putProperty (howner ▸ hcontent))
  | addMixin path mixin | removeMixin path mixin =>
      exact leads_map (keepsAt_changeMixins _ hpath)
  | removeNode path =>
      exact leads_map (leads_removeNode (fun _ => id) fun w _ hw _ =>
        hw.trans (w.sameAt_removeSubtree hpath))
  | putProperty p => exact leads_map (keepsAt_putProperty hpath)
  | removeProperty path name =>
      exact leads_map (leads_removeProperty (fun _ => id) fun w hw =>
        hw.trans (w.sameAt_withoutProperty name hpath))
  | checkin path labels created =>
      obtain ⟨hpath, hholder⟩ := not_or.1 hpath
      exact leads_map (keepsAt_checkin _ _ _ hpath hholder)
  | addVersionLabel path version label =>
      exact leads_map (leads_addVersionLabel (fun _ => id) fun w _ hw _ =>
        hw.trans (w.sameAt_insertHistory _ hpath))

end Edit

/-! ### Replayed mutations -/

/-- **Mutations that do not touch a path leave it as it was.** -/
theorem Workspace.sameAt_replay (w : Workspace) {calls : List (Draws × Mutation)} {path : String}
    (hcalls : ∀ call ∈ calls, ¬call.2.Touches path) : w.SameAt (w.replay calls) path := by
  induction calls using List.reverseRecOn with
  | nil => exact .refl w path
  | append_singleton calls call ih =>
      have hcall : ¬call.2.Touches path := hcalls call List.mem_concat_self
      rw [replay_concat, applied_eq]
      exact Edit.keepsAt_edit call.1 hcall _
        (ih fun earlier hearlier => hcalls earlier (List.mem_append_left _ hearlier))

end LinkedStore
