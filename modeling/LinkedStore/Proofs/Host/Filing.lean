import LinkedStore.Proofs.Host.Integrity
import LinkedStore.Proofs.Store.Filing

/-!
# The filing of all states of a host

No mutation, whatever it is given, leaves a workspace that is not filed.  So every state that a host
holds after a run from a new repository is filed, even if the run is not orderly.

## Main statements

* `Edit.kept_filed` : no edit leaves a workspace that is not filed.
* `Host.filed_of_holds` : every state of a host is filed.
-/

namespace LinkedStore

namespace Edit

open Workspace

variable {α : Type}

/-- The copies of a version go below the holder of the versions of a node. -/
theorem leads_freeze_version {P Q : Workspace → Prop} {identifiers : Nat → String} {path : String}
    {count : Nat} (hrefused : ∀ w, P w → Q w)
    (hfrozen : ∀ w, P w →
      Q (w.withCopies identifiers path
        (Path.child (Path.child path Path.Segment.holder.text) (Path.Segment.version count).text)
        (w.withHolder (identifiers 0) (Path.child path Path.Segment.holder.text)))) :
    Leads P Q (freeze identifiers path (frozenPath path ("1." ++ toString count))) := by
  refine leads_freeze hrefused fun w holder hw _ hholder => ?_
  have htarget : frozenPath path ("1." ++ toString count) =
      Path.child (Path.child path Path.Segment.holder.text) (Path.Segment.version count).text :=
    rfl
  rw [htarget] at hholder ⊢
  rw [Path.parent?_child (Path.child_ne_empty _ _), Option.some_inj] at hholder
  subst hholder
  exact hfrozen w hw

/-- On filed workspaces an edit leaves filed workspaces. -/
def KeepsFiled (e : Edit α) : Prop := Leads Filed Filed e

theorem keepsFiled_addNodeAt (identifier path primaryType : String) :
    KeepsFiled (addNodeAt identifier path primaryType) := by
  refine leads_addNodeAt (fun _ => id) fun w parent above hw hparent habove _ => ?_
  refine hw.insertNode (Path.ne_empty_of_parent? hparent) fun parent' hparent' => ⟨above, ?_⟩
  rw [← Option.some.inj (hparent.symm.trans hparent'), habove]

theorem keepsFiled_changeMixins (path : String) (change : List String → List String) :
    KeepsFiled (changeMixins path change) :=
  leads_changeMixins (fun _ => id) fun _ _ hw hn => hw.changeMixins hn _

theorem keepsFiled_putProperty (p : Property) : KeepsFiled (putProperty p) :=
  leads_putProperty (fun _ => id) fun _ _ hw hn => hw.holdProperty hn

theorem keepsFiled_checkin (identifiers : Nat → String) (path : String) (labels : List String)
    (created : Instant) : KeepsFiled (checkin identifiers path labels created) := by
  refine leads_checkin (Q := fun w => w.Filed ∧ ∃ n, w.node? path = some n) (fun _ => id)
    (fun w n hw hn => ⟨hw.of_tables rfl rfl, n, hn⟩) fun count => ?_
  refine leads_freeze_version (fun _ hw => hw.1) fun w hw => ?_
  obtain ⟨hw, n, hn⟩ := hw
  exact hw.withCopies hn identifiers .holder (.version count)

/-- **No edit leaves a workspace that is not filed**, whatever it is given. -/
theorem kept_filed : Kept Filed where
  addNodeAt := keepsFiled_addNodeAt
  changeMixins := keepsFiled_changeMixins
  removeNode path := leads_removeNode (fun _ => id) fun _ _ hw _ => hw.removeSubtree path
  putProperty := keepsFiled_putProperty
  removeProperty path name :=
    leads_removeProperty (fun _ => id) fun _ hw => hw.withoutProperty path name
  checkin := keepsFiled_checkin
  addVersionLabel _ _ _ := leads_addVersionLabel (fun _ => id) fun _ _ hw _ => hw.of_tables rfl rfl

end Edit

namespace Host

variable {r : Repository} {calls : List Call} {workspace : String} {w : Workspace}

/-- **Every state of a host is filed** after a run from a new repository. -/
theorem filed_of_holds (hr : r.IsNew) (hw : ((Host.mk r []).run calls).Holds workspace w) :
    w.Filed :=
  of_holds hr Workspace.filed_empty Workspace.filed_withRoot
    (fun _ _ hw => hw.of_tables rfl rfl) Edit.kept_filed hw

theorem filed_current (hr : r.IsNew) (calls : List Call) (number : Nat) :
    (((Host.mk r []).run calls).current number).Filed :=
  filed_of_holds hr (holds_current _ number)

end Host

end LinkedStore
