import LinkedStore.Store.Checkin

/-!
# What edits do

Every edit of a workspace is described by one equation for its run: on which workspaces it is
refused, with which error, and which workspace it leaves.  What holds of the workspaces that an
edit leaves, whether it succeeds or is refused, is put together along sequences of edits.

## Main definitions

* `leftBy` : the state that a program leaves.
* `Edit.Leads` : an edit leads from one property of workspaces to another.
* `Workspace.withHolder`, `Workspace.withCopies` : the two steps of a freeze.

## Main statements

* `Edit.leads_bind` : a sequence of edits leads where its parts lead.
* `Workspace.addNode_run`, `Workspace.removeNode_run`, `Workspace.putProperty_run` and their like:
  the run of each edit.
* `Workspace.freeze_run`, `Workspace.checkin_run` : the run of a freeze and of a checkin.
-/

namespace LinkedStore

/-! ### What programs leave -/

section LeftBy

variable {σ α β : Type}

/-- The state that a program leaves, whether it succeeds or is refused. -/
def leftBy (program : EStateM Error σ α) (s : σ) : σ :=
  match program.run s with
  | .ok _ left => left
  | .error _ left => left

theorem leftBy_map (f : α → β) (program : EStateM Error σ α) (s : σ) :
    leftBy (f <$> program) s = leftBy program s := by
  rw [leftBy, leftBy, map_eq_pure_bind, EStateM.run_bind]
  cases program.run s <;> rfl

end LeftBy

namespace Edit

variable {α β : Type} {P Q R : Workspace → Prop}

/-- An edit of workspaces with one property leaves workspaces with another. -/
def Leads (P Q : Workspace → Prop) (e : Edit α) : Prop := ∀ w, P w → Q (leftBy e w)

theorem leads_map {f : α → β} {e : Edit α} (h : Leads P Q e) : Leads P Q (f <$> e) := by
  intro w hw
  rw [leftBy_map]
  exact h w hw

theorem leads_throw (error : Error) (h : ∀ w, P w → Q w) : Leads P Q (throw error : Edit α) :=
  h

/-- A sequence that succeeds has gone on where its first part has left off. -/
theorem run_bind_eq_ok {e : Edit α} {f : α → Edit β} {b : β} {w left : Workspace}
    (hrun : (e >>= f).run w = .ok b left) :
    ∃ a w', e.run w = .ok a w' ∧ (f a).run w' = .ok b left := by
  rw [EStateM.run_bind] at hrun
  cases he : e.run w with
  | ok a w' =>
      rw [he] at hrun
      exact ⟨a, w', rfl, hrun⟩
  | error error w' =>
      rw [he] at hrun
      exact nomatch hrun

/-- A sequence of edits leads where its parts lead.  The first part may be the last to run, so
that its property has to imply that of the whole. -/
theorem leads_bind_of_run {e : Edit α} {f : α → Edit β} (he : Leads P Q e)
    (hf : ∀ w a left, e.run w = .ok a left → Leads Q R (f a)) (himp : ∀ w, Q w → R w) :
    Leads P R (e >>= f) := by
  intro w hw
  have hleft := he w hw
  rw [leftBy] at hleft ⊢
  rw [EStateM.run_bind]
  cases hrun : e.run w with
  | ok a left =>
      rw [hrun] at hleft
      exact hf w a left hrun left hleft
  | error error left =>
      rw [hrun] at hleft
      exact himp left hleft

theorem leads_bind {e : Edit α} {f : α → Edit β} (he : Leads P Q e) (hf : ∀ a, Leads Q R (f a))
    (himp : ∀ w, Q w → R w) : Leads P R (e >>= f) :=
  leads_bind_of_run he (fun _ a _ _ => hf a) himp

end Edit

namespace Workspace

variable (w : Workspace)

/-! ### Nodes -/

theorem addNode_run (identifier parent path primaryType : String) :
    (addNode identifier parent path primaryType).run w =
      match w.node? parent with
      | none => .error (.notFound (.node parent)) w
      | some _ =>
          if w.nodes.contains path then .error (.repository (.nodeExists path)) w
          else .ok (.plain path identifier primaryType)
            (w.insertNode (.plain path identifier primaryType)) := by
  rw [addNode, EStateM.run_bind, require_run]
  cases w.node? parent with
  | none => rfl
  | some n =>
      simp only [EStateM.run_bind, EStateM.run_get]
      cases w.nodes.contains path <;> rfl

/-- The node that is returned is the one that has been added. -/
theorem eq_plain_of_addNode_run {w : Workspace} {identifier parent path primaryType : String}
    {n : Node} {left : Workspace}
    (h : (addNode identifier parent path primaryType).run w = .ok n left) :
    n = .plain path identifier primaryType := by
  rw [addNode_run] at h
  cases hparent : w.node? parent with
  | none =>
      rw [hparent] at h
      exact nomatch h
  | some above =>
      rw [hparent] at h
      by_cases hfree : w.nodes.contains path = true
      · simp only [hfree, if_true] at h
        exact nomatch h
      · simp only [hfree, Bool.false_eq_true, if_false] at h
        exact (EStateM.Result.ok.inj h).1.symm

theorem changeMixins_run (path : String) (change : List String → List String) :
    (changeMixins path change).run w =
      match w.node? path with
      | none => .error (.notFound (.node path)) w
      | some n =>
          .ok () { w with nodes := w.nodes.insert path { n with mixins := change n.mixins } } := by
  rw [changeMixins, EStateM.run_bind, require_run]
  cases w.node? path <;> rfl

theorem removeNode_run (path : String) :
    (removeNode path).run w =
      match w.node? path with
      | none => .error (.notFound (.node path)) w
      | some _ => .ok () ((w.subtree path).foldl dropNode w) := by
  rw [removeNode, EStateM.run_bind, require_run]
  cases w.node? path <;> rfl

/-! ### Properties -/

theorem putProperty_run (p : Property) :
    (putProperty p).run w =
      match w.node? p.owner with
      | none => .error (.notFound (.node p.owner)) w
      | some _ => .ok () (w.holdProperty p) := by
  rw [putProperty, EStateM.run_bind, require_run]
  cases w.node? p.owner <;> rfl

/-- The state without a property of a node. -/
def withoutProperty (path name : String) : Workspace :=
  match w.properties[path]? with
  | some held => { w with properties := w.properties.insert path (held.erase name) }
  | none => w

theorem removeProperty_run (path name : String) :
    (removeProperty path name).run w =
      match w.node? path with
      | none => .error (.notFound (.node path)) w
      | some _ => .ok (w.property? path name) (w.withoutProperty path name) := by
  rw [removeProperty, EStateM.run_bind, require_run]
  cases w.node? path <;> rfl

/-! ### Versions -/

/-- The state with a holder for frozen copies, which is added if it is missing. -/
def withHolder (identifier holder : String) : Workspace :=
  if w.nodes.contains holder then w
  else w.insertNode (.plain holder identifier Vocab.Name.ntFolder)

/-- A state with the frozen copies of a node of `w` and of the nodes below it. -/
def withCopies (identifiers : Nat → String) (source target : String) (state : Workspace) :
    Workspace :=
  (w.copies w.nodes.size source target).zipIdx.foldl
    (fun state copy => w.storeFrozen (identifiers (copy.2 + 1)) copy.1.1 copy.1.2 state) state

theorem freeze_run (identifiers : Nat → String) (source target : String) :
    (freeze identifiers source target).run w =
      if w.nodes.contains target then .error (.repository (.frozenNodeExists target)) w
      else
        match Path.parent? target with
        | none => .error (.invalidPath (.noParent target)) w
        | some holder =>
            .ok () (w.withCopies identifiers source target
              (w.withHolder (identifiers 0) holder)) := by
  simp only [freeze, EStateM.run_bind, EStateM.run_get]
  split
  · rfl
  · cases Path.parent? target with
    | none => rfl
    | some holder =>
        cases hholder : w.nodes.contains holder <;> simp [hholder, withHolder, withCopies]

/-- The history of a node before its next version. -/
def historyAt (path : String) (created : Instant) : VersionHistory :=
  (w.history? path).getD (initialHistory path created)

/-- The version that a history gets next. -/
def nextVersion (history : VersionHistory) (path : String) (labels : List String)
    (created : Instant) : Version :=
  let name := "1." ++ toString (history.versions.length - 1)
  ⟨name, frozenPath path name, created, labels⟩

/-- The state with a version added to the history of a node. -/
def withVersion (path : String) (labels : List String) (created : Instant) : Workspace :=
  let history := w.historyAt path created
  { w with
    histories := w.histories.insert path
      { history with
        versions := history.versions ++ [nextVersion history path labels created] } }

theorem checkin_run (identifiers : Nat → String) (path : String) (labels : List String)
    (created : Instant) :
    (checkin identifiers path labels created).run w =
      match w.node? path with
      | none => .error (.notFound (.node path)) w
      | some n =>
          if n.declares Vocab.Name.mixVersionable then
            ((fun _ => nextVersion (w.historyAt path created) path labels created) <$>
              freeze identifiers path
                (nextVersion (w.historyAt path created) path labels created).frozenPath).run
              (w.withVersion path labels created)
          else .error (.repository (.notVersionable path)) w := by
  rw [checkin, EStateM.run_bind, require_run]
  cases w.node? path with
  | none => rfl
  | some n =>
      cases hn : n.declares Vocab.Name.mixVersionable with
      | true =>
          simp [hn]
          rfl
      | false => simp [hn]

theorem addVersionLabel_run (path name label : String) :
    (addVersionLabel path name label).run w =
      match w.history? path with
      | none => .error (.notFound (.history path)) w
      | some history =>
          if history.versions.any (·.name == name) then
            .ok ()
              { w with
                histories := w.histories.insert path
                  { history with versions := labelFirst name label history.versions } }
          else .error (.notFound (.version name path)) w := by
  simp only [addVersionLabel, EStateM.run_bind, EStateM.run_get]
  cases w.history? path with
  | none => rfl
  | some history =>
      simp only
      split <;> rfl

end Workspace

/-! ### What edits lead to

An edit that is refused leaves the workspace as it is, and one that is not makes one change.  So an
edit leads to what holds of the workspaces it may be refused on and of the changed ones. -/

namespace Edit

open Workspace

variable {P Q R : Workspace → Prop}

theorem leads_addNode {identifier parent path primaryType : String} (hrefused : ∀ w, P w → Q w)
    (hadded : ∀ w n, P w → w.node? parent = some n → w.nodes.contains path = false →
      Q (w.insertNode (.plain path identifier primaryType))) :
    Leads P Q (addNode identifier parent path primaryType) := by
  intro w hw
  rw [leftBy, addNode_run]
  cases hparent : w.node? parent with
  | none => exact hrefused w hw
  | some n =>
      cases hfree : w.nodes.contains path with
      | true => exact hrefused w hw
      | false => exact hadded w n hw hparent hfree

theorem leads_changeMixins {path : String} {change : List String → List String}
    (hrefused : ∀ w, P w → Q w)
    (hchanged : ∀ w n, P w → w.node? path = some n →
      Q { w with nodes := w.nodes.insert path { n with mixins := change n.mixins } }) :
    Leads P Q (changeMixins path change) := by
  intro w hw
  rw [leftBy, changeMixins_run]
  cases hnode : w.node? path with
  | none => exact hrefused w hw
  | some n => exact hchanged w n hw hnode

theorem leads_removeNode {path : String} (hrefused : ∀ w, P w → Q w)
    (hremoved : ∀ w n, P w → w.node? path = some n → Q ((w.subtree path).foldl dropNode w)) :
    Leads P Q (removeNode path) := by
  intro w hw
  rw [leftBy, removeNode_run]
  cases hnode : w.node? path with
  | none => exact hrefused w hw
  | some n => exact hremoved w n hw hnode

theorem leads_putProperty {p : Property} (hrefused : ∀ w, P w → Q w)
    (hput : ∀ w n, P w → w.node? p.owner = some n → Q (w.holdProperty p)) :
    Leads P Q (putProperty p) := by
  intro w hw
  rw [leftBy, putProperty_run]
  cases hnode : w.node? p.owner with
  | none => exact hrefused w hw
  | some n => exact hput w n hw hnode

theorem leads_removeProperty {path name : String} (hrefused : ∀ w, P w → Q w)
    (hremoved : ∀ w, P w → Q (w.withoutProperty path name)) :
    Leads P Q (removeProperty path name) := by
  intro w hw
  rw [leftBy, removeProperty_run]
  cases w.node? path with
  | none => exact hrefused w hw
  | some n => exact hremoved w hw

theorem leads_freeze {identifiers : Nat → String} {source target : String}
    (hrefused : ∀ w, P w → Q w)
    (hfrozen : ∀ w holder, P w → w.nodes.contains target = false →
      Path.parent? target = some holder →
      Q (w.withCopies identifiers source target (w.withHolder (identifiers 0) holder))) :
    Leads P Q (freeze identifiers source target) := by
  intro w hw
  rw [leftBy, freeze_run]
  cases hfree : w.nodes.contains target with
  | true => exact hrefused w hw
  | false =>
      cases hholder : Path.parent? target with
      | none => exact hrefused w hw
      | some holder => exact hfrozen w holder hw hfree hholder

/-- A checkin adds a version to the history and makes the frozen copy of it. -/
theorem leads_checkin {identifiers : Nat → String} {path : String} {labels : List String}
    {created : Instant} (hrefused : ∀ w, P w → R w)
    (hversion : ∀ w n, P w → w.node? path = some n → Q (w.withVersion path labels created))
    (hfreeze : ∀ count : Nat,
      Leads Q R (freeze identifiers path (frozenPath path ("1." ++ toString count)))) :
    Leads P R (checkin identifiers path labels created) := by
  intro w hw
  rw [leftBy, checkin_run]
  cases hnode : w.node? path with
  | none => exact hrefused w hw
  | some n =>
      by_cases hn : n.declares Vocab.Name.mixVersionable = true
      · simp only [hn, if_true]
        exact leads_map (hfreeze _) _ (hversion w n hw hnode)
      · simp only [hn, Bool.false_eq_true, if_false]
        exact hrefused w hw

theorem leads_addVersionLabel {path name label : String} (hrefused : ∀ w, P w → Q w)
    (hlabelled : ∀ w history, P w → w.history? path = some history →
      Q { w with
          histories := w.histories.insert path
            { history with versions := labelFirst name label history.versions } }) :
    Leads P Q (addVersionLabel path name label) := by
  intro w hw
  rw [leftBy, addVersionLabel_run]
  cases hhistory : w.history? path with
  | none => exact hrefused w hw
  | some history =>
      by_cases hname : history.versions.any (·.name == name) = true
      · simp only [hname, if_true]
        exact hlabelled w history hw hhistory
      · simp only [hname, Bool.false_eq_true, if_false]
        exact hrefused w hw

end Edit

/-! ### The version of a state

Edits leave the version of a state alone: it counts how often the state has been saved. -/

namespace Workspace

variable (w : Workspace)

theorem version_foldl {α : Type} {f : Workspace → α → Workspace}
    (hf : ∀ w a, (f w a).version = w.version) (items : List α) :
    (items.foldl f w).version = w.version := by
  induction items generalizing w with
  | nil => rfl
  | cons a items ih => rw [List.foldl_cons, ih, hf]

theorem version_storeFrozen (identifier source target : String) (state : Workspace) :
    (w.storeFrozen identifier source target state).version = state.version := by
  rw [storeFrozen]
  cases w.node? source with
  | none => rfl
  | some live =>
      exact version_foldl (f := holdProperty) _ (fun _ _ => rfl) _

theorem version_withCopies (identifiers : Nat → String) (source target : String)
    (state : Workspace) :
    (w.withCopies identifiers source target state).version = state.version :=
  version_foldl state (fun _ _ => version_storeFrozen _ _ _ _ _) _

theorem version_withHolder (identifier holder : String) :
    (w.withHolder identifier holder).version = w.version := by
  rw [withHolder]
  split <;> rfl

theorem version_withoutProperty (path name : String) :
    (w.withoutProperty path name).version = w.version := by
  rw [withoutProperty]
  split <;> rfl

end Workspace

namespace Edit

open Workspace

variable {α : Type} {v : Nat}

/-- On states of a version, an edit leaves states of that version. -/
def KeepsVersion (v : Nat) (e : Edit α) : Prop := Leads (·.version = v) (·.version = v) e

theorem keepsVersion_changeMixins (path : String) (change : List String → List String) :
    KeepsVersion v (changeMixins path change) :=
  leads_changeMixins (fun _ => id) fun _ _ hw _ => hw

theorem keepsVersion_removeNode (path : String) : KeepsVersion v (removeNode path) :=
  leads_removeNode (fun _ => id) fun w _ hw _ =>
    (version_foldl (f := dropNode) w (fun _ _ => rfl) _).trans hw

theorem keepsVersion_putProperty (p : Property) : KeepsVersion v (putProperty p) :=
  leads_putProperty (fun _ => id) fun _ _ hw _ => hw

theorem keepsVersion_removeProperty (path name : String) :
    KeepsVersion v (removeProperty path name) :=
  leads_removeProperty (fun _ => id) fun w hw => (w.version_withoutProperty path name).trans hw

theorem keepsVersion_freeze (identifiers : Nat → String) (source target : String) :
    KeepsVersion v (freeze identifiers source target) := by
  refine leads_freeze (fun _ => id) fun w holder hw _ _ => ?_
  rw [version_withCopies, version_withHolder]
  exact hw

theorem keepsVersion_checkin (identifiers : Nat → String) (path : String) (labels : List String)
    (created : Instant) : KeepsVersion v (checkin identifiers path labels created) :=
  leads_checkin (Q := (·.version = v)) (fun _ => id) (fun _ _ hw _ => hw)
    fun _ => keepsVersion_freeze _ _ _

theorem keepsVersion_addVersionLabel (path name label : String) :
    KeepsVersion v (addVersionLabel path name label) :=
  leads_addVersionLabel (fun _ => id) fun _ _ hw _ => hw

end Edit

end LinkedStore
