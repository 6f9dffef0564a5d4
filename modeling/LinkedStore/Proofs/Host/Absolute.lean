import LinkedStore.Proofs.Host.Tree

/-!
# All stored paths are absolute

Nodes are added below stored nodes only, and copies below the node that they are copied from, so
that everything lies within the root, whatever paths the mutations are given.

## Main definitions

* `Workspace.Absolute` : all nodes are stored within the root.

## Main statements

* `Edit.keptAt_absolute` : no edit stores a node outside of the root.
* `Host.absolute_current` : the state that a session works on is absolute.
-/

namespace LinkedStore

namespace Path

/-- What lies within the root is led by a slash. -/
theorem isWithin_root_iff {path : String} :
    isWithin "/" path = true ↔ beginsWith "/" path = true := by
  rw [isWithin, show child "/" "" = "/" from rfl, Bool.or_eq_true, beq_iff_eq, or_iff_right_iff_imp]
  rintro rfl
  rfl

/-- A child lies within its parent. -/
theorem isWithin_child (parent name : String) : isWithin parent (child parent name) = true := by
  rw [isWithin_iff, toList_child, childChars, childChars]
  split
  · exact .inr ⟨name.toList, rfl⟩
  · exact .inr ⟨name.toList, by simp⟩

end Path

/-- All nodes are stored within the root. -/
def Workspace.Absolute (w : Workspace) : Prop :=
  ∀ path n, w.node? path = some n → Path.isWithin "/" path = true

/-- **No edit stores a node outside of the root**, whatever it is given. -/
theorem Edit.keptAt_absolute :
    KeptAt (fun _ => True) (fun _ => True) (fun w => w.Filed ∧ w.Absolute) :=
  keptAt_allStored (fun _ => id)
    (fun _ _ _ hparent habove => Path.isWithin_of_parent? hparent habove)
    (fun path s _ hpath => Path.isWithin_trans hpath (Path.isWithin_child path s.text))
    fun _ _ target _ _ htarget => Path.isWithin_trans htarget (Path.isWithin_child target _)

/-- **The state that a session works on is absolute** after every run from a new repository. -/
theorem Host.absolute_current {r : Repository} (hr : r.IsNew) (calls : List Call) (number : Nat) :
    (((Host.mk r []).run calls).current number).Absolute :=
  allStored_of_holds hr Edit.keptAt_absolute rfl (fun _ _ _ _ _ => trivial) (holds_current _ number)

end LinkedStore
