import LinkedStore.Proofs.Session.Effect
import LinkedStore.Proofs.Store.Freeze

/-!
# Mutations keep a store sound

Every mutation makes a sound workspace of a sound one, provided that the path at which it adds a
node is proper and that the identifiers drawn for it are distinct and not in use.  The identifiers
of the new workspace are those of the old one or were drawn.  The same goes for any property of
workspaces that withstands the single changes that a mutation makes.

## Main definitions

* `Edit.Withstands` : a property of workspaces that withstands the changes made by mutations.
* `Edit.Grows` : an edit leaves states that have grown.
* `Workspace.Newborn` : a node bears a given identifier, owns nothing but given properties and has
  no history.

## Main statements

* `Edit.Withstands.edit` : such a property holds after a mutation, and so does the account of the
  identifiers.
* `Edit.withstands_sound` : soundness withstands mutations that add nodes at proper paths.
* `Edit.newborn_edit` : a node that a mutation has created starts anew.
-/

namespace LinkedStore

namespace Edit

open Workspace

variable {α : Type} {P : Workspace → Prop} {added : String → Prop} {identifiers : Nat → String}
  {w₀ : Workspace} {k l : Nat} {path : String}

/-- A property of workspaces that withstands the changes made by mutations and by saves, as long as
nodes are added at some paths only, and under identifiers that are not in use.  With a binary its
content is added as well. -/
structure Withstands (added : String → Prop) (P : Workspace → Prop) : Prop where
  content : ∀ {path}, added path → added (Path.child path Vocab.Name.content)
  insertNode : ∀ {w : Workspace} {path parent identifier : String} {above : Node}
    (primaryType : String), P w → added path → Path.parent? path = some parent →
    w.node? parent = some above → w.node? path = none → w.identifiers[identifier]? = none →
    P (w.insertNode (.plain path identifier primaryType))
  changeMixins : ∀ {w : Workspace} {path : String} {n : Node} (mixins : List String), P w →
    w.node? path = some n → P { w with nodes := w.nodes.insert path { n with mixins := mixins } }
  removeSubtree : ∀ {w : Workspace} (path : String), P w → P ((w.subtree path).foldl dropNode w)
  holdProperty : ∀ {w : Workspace} {p : Property} {n : Node}, P w → w.node? p.owner = some n →
    P (w.holdProperty p)
  withoutProperty : ∀ {w : Workspace} (path name : String), P w → P (w.withoutProperty path name)
  insertHistory : ∀ {w : Workspace} {path : String} (history : VersionHistory), P w →
    ((∃ n, w.node? path = some n) ∨ ∃ old, w.history? path = some old) →
    P { w with histories := w.histories.insert path history }
  withCopies : ∀ {identifiers : Nat → String} {w₀ w : Workspace} {path holder : String} {n : Node}
    (count : Nat), Function.Injective identifiers → Grown P identifiers 0 w₀ w →
    w.node? path = some n → w.node? (frozenPath path ("1." ++ toString count)) = none →
    Path.parent? (frozenPath path ("1." ++ toString count)) = some holder →
    ∃ k, Grown P identifiers k w₀ (w.withCopies identifiers path
      (frozenPath path ("1." ++ toString count)) (w.withHolder (identifiers 0) holder))
  setVersion : ∀ {w : Workspace} (version : Nat), P w → P { w with version := version }

/-- On states grown from `w₀` by the first `k` identifiers of a draw, an edit leaves states grown
by the first `l`. -/
def Grows (P : Workspace → Prop) (identifiers : Nat → String) (w₀ : Workspace) (k l : Nat)
    (e : Edit α) : Prop :=
  Leads (Grown P identifiers k w₀) (Grown P identifiers l w₀) e

namespace Withstands

/-! ### Edits without new identifiers -/

theorem grows_changeMixins (hP : Withstands added P) (path : String)
    (change : List String → List String) :
    Grows P identifiers w₀ k k (Workspace.changeMixins path change) :=
  leads_changeMixins (fun _ => id) fun _ _ hw hn =>
    hw.of_entries (hP.changeMixins _ hw.holds hn) fun _ _ => id

theorem grows_putProperty (hP : Withstands added P) (p : Property) :
    Grows P identifiers w₀ k k (putProperty p) :=
  leads_putProperty (fun _ => id) fun _ _ hw hn =>
    hw.of_entries (hP.holdProperty hw.holds hn) fun _ _ => id

theorem grows_removeProperty (hP : Withstands added P) (path name : String) :
    Grows P identifiers w₀ k k (removeProperty path name) := by
  refine leads_removeProperty (fun _ => id) fun w hw => ?_
  refine hw.of_entries (hP.withoutProperty path name hw.holds) fun identifier k hk => ?_
  rwa [identifiers_withoutProperty] at hk

theorem grows_removeNode (hP : Withstands added P) (path : String) :
    Grows P identifiers w₀ k k (removeNode path) :=
  leads_removeNode (fun _ => id) fun _ _ hw _ =>
    hw.of_entries (hP.removeSubtree path hw.holds) fun _ _ => identifiers_of_dropNodes

theorem grows_addVersionLabel (hP : Withstands added P) (path name label : String) :
    Grows P identifiers w₀ k k (addVersionLabel path name label) :=
  leads_addVersionLabel (fun _ => id) fun _ history hw hhistory =>
    hw.of_entries (hP.insertHistory _ hw.holds (.inr ⟨history, hhistory⟩)) fun _ _ => id

/-! ### Edits that add nodes -/

theorem grows_addNodeAt (hP : Withstands added P) (hinjective : Function.Injective identifiers)
    (hadded : added path) (primaryType : String) :
    Grows P identifiers w₀ k (k + 1) (addNodeAt (identifiers k) path primaryType) := by
  refine leads_addNodeAt (fun _ hw => hw.mono (Nat.le_succ k))
    fun w parent above hw hparent habove hfree => hw.insertNode hinjective ?_
  exact hP.insertNode primaryType hw.holds hadded hparent habove
    (node?_of_contains_eq_false hfree) (hw.unused k (Nat.le_refl k))

theorem grows_checkin (hP : Withstands added P) (hinjective : Function.Injective identifiers)
    (path : String) (labels : List String) (created : Instant) :
    Leads (Grown P identifiers 0 w₀) (fun w => ∃ k, Grown P identifiers k w₀ w)
      (checkin identifiers path labels created) := by
  refine leads_checkin (Q := fun w => Grown P identifiers 0 w₀ w ∧ ∃ n, w.node? path = some n)
    (fun w hw => ⟨0, hw⟩) (fun w n hw hn => ?_) fun count => ?_
  · exact ⟨hw.of_entries (hP.insertHistory _ hw.holds (.inl ⟨n, hn⟩)) fun _ _ => id, n, hn⟩
  · refine leads_freeze (fun w hw => ⟨0, hw.1⟩) fun w holder ⟨hw, n, hn⟩ hfree hholder => ?_
    exact hP.withCopies count hinjective hw hn (node?_of_contains_eq_false hfree) hholder

theorem grows_createContainer (hP : Withstands added P) {d : Draws}
    (hinjective : Function.Injective d.identifier) (hadded : added path) :
    Grows P d.identifier w₀ 0 1 (createContainer d path) :=
  leads_createContainer (hP.grows_addNodeAt hinjective hadded _) (hP.grows_changeMixins _ _)
    fun p _ => hP.grows_putProperty p

theorem grows_createBinary (hP : Withstands added P) {d : Draws}
    (hinjective : Function.Injective d.identifier) (hadded : added path) (bytes : Text.Bytes)
    (mimeType : String) : Grows P d.identifier w₀ 0 2 (createBinary d path bytes mimeType) :=
  leads_createBinary bytes mimeType (hP.grows_addNodeAt hinjective hadded _)
    (hP.grows_changeMixins _ _) (fun p _ => hP.grows_putProperty p)
    (fun _ hw => hw.mono (Nat.le_succ 1)) (hP.grows_addNodeAt hinjective (hP.content hadded) _)
    (hP.grows_changeMixins _ _) fun p _ => hP.grows_putProperty p

/-- **A mutation keeps what withstands its changes**, and the identifiers that it adds were drawn
for it. -/
theorem edit (hP : Withstands added P) {d : Draws} (hinjective : Function.Injective d.identifier)
    {m : Mutation} (hadded : ∀ path, m.newPath? = some path → added path) :
    Leads (Grown P d.identifier 0 w₀) (fun w => ∃ k, Grown P d.identifier k w₀ w)
      (m.edit d) := by
  have hgrows {α : Type} {l : Nat} {e : Edit α} (he : Grows P d.identifier w₀ 0 l e) :
      Leads (Grown P d.identifier 0 w₀) (fun w => ∃ k, Grown P d.identifier k w₀ w) e :=
    fun w hw => ⟨l, he w hw⟩
  cases m with
  | addNode path primaryType =>
      exact leads_map (hgrows (hP.grows_addNodeAt hinjective (hadded path rfl) _))
  | createContainer path =>
      exact leads_map (hgrows (hP.grows_createContainer hinjective (hadded path rfl)))
  | createBinary path bytes mimeType =>
      exact leads_map (hgrows (hP.grows_createBinary hinjective (hadded path rfl) bytes mimeType))
  | addMixin path mixin => exact leads_map (hgrows (hP.grows_changeMixins _ _))
  | removeMixin path mixin => exact leads_map (hgrows (hP.grows_changeMixins _ _))
  | removeNode path => exact leads_map (hgrows (hP.grows_removeNode _))
  | putProperty p => exact leads_map (hgrows (hP.grows_putProperty _))
  | removeProperty path name => exact leads_map (hgrows (hP.grows_removeProperty _ _))
  | checkin path labels created => exact leads_map (hP.grows_checkin hinjective _ _ _)
  | addVersionLabel path version label =>
      exact leads_map (hgrows (hP.grows_addVersionLabel _ _ _))

end Withstands

/-- **Soundness withstands mutations** that add nodes at proper paths.  A checkin freezes a node at
a place below it. -/
theorem withstands_sound : Withstands Path.Proper Sound where
  content hproper := hproper.child .content
  insertNode _ hw hproper hparent habove hfree hunused :=
    hw.insertNode hproper hparent habove hfree hunused
  changeMixins mixins hw hn := hw.changeMixins hn mixins
  removeSubtree path hw := hw.removeSubtree path
  holdProperty hw hn := hw.holdProperty hn
  withoutProperty path name hw := hw.withoutProperty path name
  insertHistory history hw hplace := by
    rcases hplace with ⟨n, hn⟩ | ⟨old, hold⟩
    · exact hw.insertHistory hn history
    · obtain ⟨n, hn⟩ := hw.history hold
      exact hw.insertHistory hn history
  withCopies {_ _ _ _ holder _} count hinjective hw hn hfree hholder := by
    obtain ⟨segs, rfl⟩ := hw.holds.proper hn
    have htarget : frozenPath (Path.ofSegments segs) ("1." ++ toString count) =
        Path.ofSegments (segs ++ [.holder] ++ [.version count]) := by
      rw [frozenPath, ← Path.child_ofSegments, ← Path.child_ofSegments]
      rfl
    rw [htarget] at hfree hholder ⊢
    rw [Path.parent?_ofSegments, Option.some_inj] at hholder
    subst hholder
    exact Sound.withCopies hinjective hw hn hfree
  setVersion version hw := hw.setVersion version

end Edit

/-! ### Nodes that have just been created -/

/-- The node at a path, if there is one, bears a given identifier, owns only given properties and
has no history. -/
structure Workspace.Newborn (identifier : String) (properties : List Property) (path : String)
    (w : Workspace) : Prop where
  node : ∀ n, w.node? path = some n → n.identifier = identifier
  property : ∀ name p, w.property? path name = some p → p ∈ properties
  history : w.history? path = none

/-- The properties that a mutation gives to the node that it adds. -/
def Mutation.firstProperties (d : Draws) : Mutation → List Property
  | .createContainer path =>
      Workspace.stamps d.now (.plain path (d.identifier 0) Vocab.Name.ntFolder)
  | .createBinary path _ _ =>
      Workspace.stamps d.now (.plain path (d.identifier 0) Vocab.Name.ntFile)
  | _ => []

namespace Edit

open Workspace

variable {identifier path path' : String} {properties : List Property}

theorem newborn_of_free {w : Workspace} (hw : w.Sound) (hfree : w.node? path = none) :
    Newborn identifier properties path w where
  node _ hn := nomatch hfree.symm.trans hn
  property name _ hp := nomatch (hw.property?_of_free hfree name).symm.trans hp
  history := hw.history?_of_free hfree

theorem newborn_addNodeAt {drawn primaryType : String} (h : path' = path → drawn = identifier) :
    Leads (Newborn identifier properties path) (Newborn identifier properties path)
      (addNodeAt drawn path' primaryType) := by
  refine leads_addNodeAt (fun _ => id) fun w parent above hw _ _ _ => ?_
  refine ⟨fun n hn => ?_, hw.property, hw.history⟩
  rw [node?_insertNode_plain] at hn
  by_cases hpath : path' = path
  · rw [if_pos hpath] at hn
    rw [← Option.some.inj hn]
    exact h hpath
  · rw [if_neg hpath] at hn
    exact hw.node n hn

theorem newborn_changeMixins (change : List String → List String) :
    Leads (Newborn identifier properties path) (Newborn identifier properties path)
      (changeMixins path' change) := by
  refine leads_changeMixins (fun _ => id) fun w n hw hn => ?_
  refine ⟨fun m hm => ?_, hw.property, hw.history⟩
  obtain ⟨m', hm', -, hsame⟩ := (sameNodes_changeMixins hn _).symm.exists_node hm
  rw [← hsame]
  exact hw.node m' hm'

theorem newborn_putProperty {p : Property} (h : p.owner = path → p ∈ properties) :
    Leads (Newborn identifier properties path) (Newborn identifier properties path)
      (putProperty p) := by
  refine leads_putProperty (fun _ => id) fun w n hw _ => ⟨hw.node, fun name q hq => ?_, hw.history⟩
  rw [property?_holdProperty] at hq
  by_cases hkey : p.owner = path ∧ p.name = name
  · rw [if_pos hkey] at hq
    rw [← Option.some.inj hq]
    exact h hkey.1
  · rw [if_neg hkey] at hq
    exact hw.property name q hq

/-- Where a node would start anew, so does the one that a mutation creates. -/
theorem newborn_edit_of_newborn (d : Draws) {m : Mutation} (hnew : m.newPath? = some path)
    (hother : Path.child path Vocab.Name.content ≠ path) :
    Leads (Newborn (d.identifier 0) (m.firstProperties d) path)
      (Newborn (d.identifier 0) (m.firstProperties d) path) (m.edit d) := by
  cases m with
  | addNode newPath primaryType =>
      obtain rfl := Option.some.inj hnew
      exact leads_map (newborn_addNodeAt fun _ => rfl)
  | createContainer newPath =>
      obtain rfl := Option.some.inj hnew
      exact leads_map (leads_createContainer (newborn_addNodeAt fun _ => rfl)
        (newborn_changeMixins _) fun p hp => newborn_putProperty fun _ => hp)
  | createBinary newPath bytes mimeType =>
      obtain rfl := Option.some.inj hnew
      exact leads_map (leads_createBinary bytes mimeType (newborn_addNodeAt fun _ => rfl)
        (newborn_changeMixins _) (fun p hp => newborn_putProperty fun _ => hp) (fun _ => id)
        (newborn_addNodeAt fun hsame => absurd hsame hother) (newborn_changeMixins _)
        fun p howner => newborn_putProperty fun hsame => absurd (howner ▸ hsame) hother)
  | _ => exact nomatch hnew

/-- **A node that a mutation creates starts anew**, whatever was at its path before. -/
theorem newborn_edit (d : Draws) {m : Mutation} (hnew : m.newPath? = some path)
    (hproper : Path.Proper path) :
    Leads (fun w => w.Sound ∧ w.node? path = none)
      (Newborn (d.identifier 0) (m.firstProperties d) path) (m.edit d) :=
  fun w ⟨hw, hfree⟩ =>
    newborn_edit_of_newborn d hnew (hproper.child_ne .content) w (newborn_of_free hw hfree)

end Edit

end LinkedStore
