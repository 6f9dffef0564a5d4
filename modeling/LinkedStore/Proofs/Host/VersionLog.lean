import LinkedStore.Proofs.Host.Chronicle
import LinkedStore.Proofs.Host.Ledger
import LinkedStore.Proofs.Host.Snapshot

/-!
# What version histories tell

An observer keeps a log of a node: whenever a checkin of the node succeeds, the version that it
returns is noted, and whenever the node is not stored, the log starts anew.  The log of a state is
that of the mutations which have made the state, as the ledger of the run has them: those of the
saves one after another, and behind them those of the session that has staged it.

If no node is added at a path with a reserved segment, then the versions of a node that a client
sees are the logged ones in their order, labels aside, whatever else is removed or checked in.

## Main definitions

* `Workspace.versionsOf` : the versions of a node that a client sees.
* `Workspace.checkedIn?` : the version that a call returns, if it checks a node in.
* `Workspace.logged`, `Publication.logged` : the log of a node after a call, and after a save.
* `Host.Chronicle` : what holds of the histories of a host after a run.

## Main statements

* `Workspace.Chronicled.versionsOf_applied` : what one mutation does to the versions of a node.
* `Ledger.Only.note` : the log is kept along a run.
* `Host.chronicle_of_unreserved` : the histories of a host tell which checkins there were.
-/

namespace LinkedStore

/-- The version without its labels. -/
def Version.unlabelled (v : Version) : Version := { v with labels := [] }

/-- Labels have no part in which versions a client sees. -/
theorem VersionHistory.unlabelled_visible_relabelled (history : VersionHistory)
    (name label : String) :
    (history.relabelled name label).visible.map Version.unlabelled =
      history.visible.map Version.unlabelled := by
  have hunlabelled (v : Version) : (v.relabelled name label).unlabelled = v.unlabelled := by
    rw [Version.relabelled]
    split <;> rfl
  rw [visible, relabelled, List.filter_map, List.map_map, visible]
  simp only [Function.comp_def, Version.name_relabelled, hunlabelled]

/-! ### The versions of a node -/

namespace Workspace

/-- The versions of a node that a client sees. -/
def versionsOf (w : Workspace) (path : String) : List Version :=
  ((w.history? path).map VersionHistory.visible).getD []

/-- The version that a mutation of the copy of an open session returns, if it is a checkin of a node
and succeeds. -/
def checkedIn? (w : Workspace) (path : String) (call : Draws × Mutation) : Option Version :=
  match call.2 with
  | .checkin checked _ _ =>
      if checked = path then
        match (call.2.run w call.1).run ⟨"", some w, true⟩ with
        | .ok (.version v) _ => some v
        | _ => none
      else none
  | _ => none

/-- A state and the log of a node, after a mutation.  What was logged of a node that is not stored
any more does not count. -/
def logged (path : String) (seen : Workspace × List Version) (call : Draws × Mutation) :
    Workspace × List Version :=
  (seen.1.applied call,
    (if (seen.1.node? path).isSome then seen.2 else []) ++ (seen.1.checkedIn? path call).toList)

variable {w w' : Workspace} {path checked : String} {n : Node} {d : Draws} {m : Mutation}
  {labels : List String} {created : Option Instant}

theorem versionsOf_of_history? (h : w'.history? path = w.history? path) :
    w'.versionsOf path = w.versionsOf path := by
  rw [versionsOf, h, versionsOf]

theorem checkedIn?_checkin (w : Workspace) (path checked : String) (d : Draws)
    (labels : List String) (created : Option Instant) :
    w.checkedIn? path (d, .checkin checked labels created) =
      if checked = path then
        match (checkin d.identifier checked labels (created.getD d.now)).run w with
        | .ok v _ => some v
        | .error _ _ => none
      else none := by
  have hrun : ((Mutation.checkin checked labels created).run w d).run ⟨"", some w, true⟩ =
      match (checkin d.identifier checked labels (created.getD d.now)).run w with
      | .ok v w' => .ok (.version v) ⟨"", some w', true⟩
      | .error error w' => .error error ⟨"", some w', true⟩ := by
    rw [Mutation.run_eq d rfl, Session.run_write _ _ rfl, Session.current, Option.getD_some,
      Mutation.edit, map_eq_pure_bind, EStateM.run_bind]
    cases (checkin d.identifier checked labels (created.getD d.now)).run w <;> rfl
  rw [checkedIn?, hrun]
  cases (checkin d.identifier checked labels (created.getD d.now)).run w <;> rfl

end Workspace

/-! ### What one mutation does to histories -/

namespace Edit

open Workspace

variable {histories : Table VersionHistory}

/-- An edit leaves the histories of a workspace as they are. -/
def KeepsHistories {α : Type} (histories : Table VersionHistory) (e : Edit α) : Prop :=
  Leads (·.histories = histories) (·.histories = histories) e

theorem keepsHistories_addNodeAt (identifier path primaryType : String) :
    KeepsHistories histories (addNodeAt identifier path primaryType) :=
  leads_addNodeAt (fun _ => id) fun _ _ _ hw _ _ _ => hw

theorem keepsHistories_changeMixins (path : String) (change : List String → List String) :
    KeepsHistories histories (changeMixins path change) :=
  leads_changeMixins (fun _ => id) fun _ _ hw _ => hw

theorem keepsHistories_putProperty (p : Property) : KeepsHistories histories (putProperty p) :=
  leads_putProperty (fun _ => id) fun _ _ hw _ => hw

theorem keepsHistories_removeProperty (path name : String) :
    KeepsHistories histories (removeProperty path name) := by
  refine leads_removeProperty (fun _ => id) fun w hw => ?_
  rw [withoutProperty]
  split <;> exact hw

theorem keepsHistories_createContainer (d : Draws) (path : String) :
    KeepsHistories histories (createContainer d path) :=
  leads_createContainer (keepsHistories_addNodeAt _ _ _) (keepsHistories_changeMixins _ _)
    fun p _ => keepsHistories_putProperty p

theorem keepsHistories_createBinary (d : Draws) (path : String) (bytes : Text.Bytes)
    (mimeType : String) : KeepsHistories histories (createBinary d path bytes mimeType) :=
  leads_createBinary bytes mimeType (keepsHistories_addNodeAt _ _ _)
    (keepsHistories_changeMixins _ _) (fun p _ => keepsHistories_putProperty p) (fun _ => id)
    (keepsHistories_addNodeAt _ _ _) (keepsHistories_changeMixins _ _)
    fun p _ => keepsHistories_putProperty p

end Edit

namespace Workspace.Chronicled

variable {w w' : Workspace} {path checked : String} {n : Node} {d : Draws} {m : Mutation}
  {labels : List String} {created : Option Instant}

theorem versionsOf_eq_tail (hw : w.Chronicled) (path : String) (created : Instant) :
    w.versionsOf path = (w.historyAt path created).versions.tail := by
  rw [← (hw.listed_historyAt path created).visible_eq, versionsOf, historyAt]
  cases hhistory : w.history? path with
  | none => exact ((VersionHistory.Listed.initial path created).visible_eq).symm
  | some history => rfl

/-- A checkin that succeeds adds the version that it returns to those of the node, and to no
others. -/
theorem versionsOf_checkin (hw : w.Chronicled) {identifiers : Nat → String} {created : Instant}
    {v : Version} (hrun : (checkin identifiers checked labels created).run w = .ok v w')
    (path : String) :
    w'.versionsOf path = w.versionsOf path ++ if checked = path then [v] else [] := by
  have hsnapshot := hw.filed.snapshot_of_checkin (hw.proper _ _) hrun
  by_cases hpath : checked = path
  · subst hpath
    have hlisted := (hw.listed_historyAt checked created).concat labels created
    rw [← hsnapshot.version] at hlisted
    have hpos := (hw.listed_historyAt checked created).pos
    rw [if_pos rfl, hw.versionsOf_eq_tail checked created, versionsOf, hsnapshot.ownHistory,
      Option.map_some, Option.getD_some, hlisted.visible_eq,
      List.tail_append_of_ne_nil (List.ne_nil_of_length_pos hpos)]
  · rw [if_neg hpath, List.append_nil]
    exact versionsOf_of_history? (hsnapshot.history path (Ne.symm hpath))

/-- A label is added to the version of the name in the history of the node, and to no others. -/
theorem history?_addVersionLabel (hw : w.Chronicled) (labelled name label k : String) :
    (leftBy (addVersionLabel labelled name label) w).history? k =
      (w.history? k).map fun history =>
        if k = labelled then history.relabelled name label else history := by
  have hkept : (w.history? k).map (fun history =>
      if k = labelled then history.relabelled name label else history) = w.history? k ∨
      k = labelled := by
    by_cases hk : k = labelled
    · exact .inr hk
    · left
      simp [hk]
  rw [leftBy, addVersionLabel_run]
  cases hhistory : w.history? labelled with
  | none =>
      rcases hkept with hkept | rfl
      · exact hkept.symm
      · simp only [hhistory, Option.map_none]
  | some history =>
      by_cases hname : history.versions.any (·.name == name) = true
      · simp only [hname, if_true, (hw.listed labelled history hhistory).labelFirst_eq_map]
        rw [Workspace.history?, Table.getElem?_insert]
        rcases eq_or_ne labelled k with rfl | hk
        · rw [if_pos rfl, hhistory, Option.map_some, if_pos rfl]
        · rw [if_neg hk]
          exact (hkept.resolve_right (Ne.symm hk)).symm
      · simp only [hname, Bool.false_eq_true, if_false]
        rcases hkept with hkept | rfl
        · exact hkept.symm
        · rw [hhistory, Option.map_some, if_pos rfl, VersionHistory.relabelled_of_notMem]
          intro v hv heq
          exact hname (List.any_eq_true.2 ⟨v, hv, beq_iff_eq.2 heq⟩)

/-- A label leaves the versions of a node what they are, labels aside. -/
theorem versionsOf_addVersionLabel (hw : w.Chronicled) (labelled name label path : String) :
    ((leftBy (addVersionLabel labelled name label) w).versionsOf path).map Version.unlabelled =
      (w.versionsOf path).map Version.unlabelled := by
  rw [versionsOf, hw.history?_addVersionLabel, versionsOf]
  cases w.history? path with
  | none => rfl
  | some history =>
      simp only [Option.map_some, Option.getD_some]
      split
      · exact history.unlabelled_visible_relabelled name label
      · rfl

/-- **What one mutation does to the versions of a node** that is stored after it: it adds the one
that it returns, if it is a checkin of the node and succeeds. -/
theorem versionsOf_applied (hw : w.Chronicled) (call : Draws × Mutation)
    (hn : (w.applied call).node? path = some n) :
    ((w.applied call).versionsOf path).map Version.unlabelled =
      (w.versionsOf path ++ (w.checkedIn? path call).toList).map Version.unlabelled := by
  obtain ⟨d, m⟩ := call
  have hkeeps (hnone : w.checkedIn? path (d, m) = none)
      (hhistory : (w.applied (d, m)).history? path = w.history? path) :
      ((w.applied (d, m)).versionsOf path).map Version.unlabelled =
        (w.versionsOf path ++ (w.checkedIn? path (d, m)).toList).map Version.unlabelled := by
    rw [hnone, Option.toList_none, List.append_nil, versionsOf_of_history? hhistory]
  have htable (hkept : Edit.KeepsHistories w.histories (m.edit d)) :
      (w.applied (d, m)).history? path = w.history? path := by
    rw [applied_eq, Workspace.history?, hkept w rfl, Workspace.history?]
  cases m with
  | addNode path primaryType =>
      exact hkeeps rfl (htable (Edit.leads_map (Edit.keepsHistories_addNodeAt _ _ _)))
  | createContainer path =>
      exact hkeeps rfl (htable (Edit.leads_map (Edit.keepsHistories_createContainer _ _)))
  | createBinary path bytes mimeType =>
      exact hkeeps rfl (htable (Edit.leads_map (Edit.keepsHistories_createBinary _ _ _ _)))
  | addMixin path mixin =>
      exact hkeeps rfl (htable (Edit.leads_map (Edit.keepsHistories_changeMixins _ _)))
  | removeMixin path mixin =>
      exact hkeeps rfl (htable (Edit.leads_map (Edit.keepsHistories_changeMixins _ _)))
  | putProperty p =>
      exact hkeeps rfl (htable (Edit.leads_map (Edit.keepsHistories_putProperty p)))
  | removeProperty path name =>
      exact hkeeps rfl (htable (Edit.leads_map (Edit.keepsHistories_removeProperty _ _)))
  | removeNode removed =>
      refine hkeeps rfl ?_
      rw [applied_eq, Mutation.edit, leftBy_map, leftBy, removeNode_run] at hn ⊢
      cases hremoved : w.node? removed with
      | none => rfl
      | some m =>
          simp only [hremoved] at hn ⊢
          rw [node?_dropNodes] at hn
          split at hn
          · cases hn
          · rename_i hkept
            rw [history?_dropNodes, if_neg hkept]
  | checkin checked labels created =>
      rw [checkedIn?_checkin, applied_eq, Mutation.edit, leftBy_map, leftBy]
      rcases hw.checkin_cases d.identifier checked labels (created.getD d.now) with
        ⟨m, w', -, hrun⟩ | ⟨error, hrun⟩
      · rw [hrun]
        simp only
        rw [hw.versionsOf_checkin hrun]
        split <;> rfl
      · rw [hrun]
        simp
  | addVersionLabel labelled name label =>
      rw [applied_eq, Mutation.edit, leftBy_map, hw.versionsOf_addVersionLabel]
      exact congrArg _ (List.append_nil _).symm

end Workspace.Chronicled

/-! ### Logs -/

/-- A mutation adds no node of its own at a path with a reserved or an empty segment. -/
def Mutation.Unreserved (m : Mutation) : Prop :=
  ∀ path, m.newPath? = some path → Path.Admissible path

/-- A state and the log of a node, after a save: what it published is logged, if it was to the
workspace. -/
def Publication.logged (workspace path : String) (seen : Workspace × List Version)
    (p : Publication) : Workspace × List Version :=
  if p.workspace = workspace then
    let left := p.calls.foldl (Workspace.logged path) seen
    ({ left.1 with version := left.1.version + 1 }, left.2)
  else seen

namespace Ledger

/-- A saved state of a workspace and the log of a node, after saves. -/
def logAfter (r : Repository) (workspace path : String) (saves : List Publication) :
    Workspace × List Version :=
  saves.foldl (Publication.logged workspace path) (r.committed workspace, [])

/-- The log of a node in the saved state of a workspace. -/
def savedLog (r : Repository) (l : Ledger) (workspace path : String) : List Version :=
  (logAfter r workspace path l.saves).2

/-- The log of a node in the staged copy that a draft describes: that of the saved state which the
copy was taken from, and behind it what the draft has added. -/
def stagedLog (r : Repository) (l : Ledger) (workspace path : String) (draft : Draft) :
    List Version :=
  (draft.calls.foldl (Workspace.logged path)
    (logAfter r workspace path (l.saves.take draft.since))).2

/-- A ledger holds only mutations with a property. -/
structure Only (P : Mutation → Prop) (l : Ledger) : Prop where
  saves : ∀ p ∈ l.saves, ∀ call ∈ p.calls, P call.2
  drafts : ∀ number draft, l.drafts number = some draft → ∀ call ∈ draft.calls, P call.2

end Ledger

namespace Workspace

/-- The log of a node tells the versions that a client sees of it, labels aside. -/
structure Tells (path : String) (seen : Workspace × List Version) : Prop where
  chronicled : seen.1.Chronicled
  log : ∀ n, seen.1.node? path = some n →
    (seen.1.versionsOf path).map Version.unlabelled = seen.2.map Version.unlabelled

variable {path workspace : String} {seen : Workspace × List Version}

/-- The log is empty at first. -/
theorem Tells.nil {w : Workspace} (hw : w.Chronicled) (hnone : w.history? path = none) :
    Tells path (w, []) where
  chronicled := hw
  log n _ := by
    rw [versionsOf, hnone]
    rfl

theorem Tells.logged (h : Tells path seen) {call : Draws × Mutation}
    (hcall : call.2.Unreserved) : Tells path (Workspace.logged path seen call) where
  chronicled := by
    rw [Workspace.logged, applied_eq]
    exact Edit.keptAt_chronicled.edit call.1 call.2 hcall (fun _ _ => trivial) _ h.chronicled
  log n hn := by
    rw [Workspace.logged] at hn ⊢
    simp only at hn ⊢
    rw [h.chronicled.versionsOf_applied call hn, List.map_append, List.map_append]
    congr 1
    cases hbefore : seen.1.node? path with
    | some before =>
        rw [if_pos (by rfl)]
        exact h.log before hbefore
    | none =>
        rw [if_neg (by simp), versionsOf, h.chronicled.history?_of_free hbefore]
        rfl

theorem Tells.foldl_logged (h : Tells path seen) {calls : List (Draws × Mutation)}
    (hcalls : ∀ call ∈ calls, call.2.Unreserved) :
    Tells path (calls.foldl (Workspace.logged path) seen) := by
  induction calls generalizing seen with
  | nil => exact h
  | cons call calls ih =>
      exact ih (h.logged (hcalls call List.mem_cons_self))
        fun c hc => hcalls c (List.mem_cons_of_mem call hc)

/-- The version of a state says nothing of its histories. -/
theorem Tells.setVersion (h : Tells path seen) (version : Nat) :
    Tells path ({ seen.1 with version := version }, seen.2) where
  chronicled := h.chronicled.of_sameNodes (h.chronicled.filed.of_tables rfl rfl)
    (sameNodes_of_nodes_eq rfl) fun _ => rfl
  log := h.log

theorem Tells.foldl_publication (h : Tells path seen) {saves : List Publication}
    (hsaves : ∀ p ∈ saves, ∀ call ∈ p.calls, call.2.Unreserved) :
    Tells path (saves.foldl (Publication.logged workspace path) seen) := by
  induction saves generalizing seen with
  | nil => exact h
  | cons p saves ih =>
      refine ih ?_ fun q hq => hsaves q (List.mem_cons_of_mem p hq)
      rw [Publication.logged]
      split
      · exact (h.foldl_logged (hsaves p List.mem_cons_self)).setVersion _
      · exact h

/-- The log goes along with the state. -/
theorem fst_foldl_logged (seen : Workspace × List Version) (calls : List (Draws × Mutation)) :
    (calls.foldl (Workspace.logged path) seen).1 = seen.1.replay calls := by
  induction calls generalizing seen with
  | nil => rfl
  | cons call calls ih => exact ih _

theorem fst_foldl_publication (seen : Workspace × List Version) (saves : List Publication) :
    (saves.foldl (Publication.logged workspace path) seen).1 =
      seen.1.published workspace saves := by
  induction saves generalizing seen with
  | nil => rfl
  | cons p saves ih =>
      rw [List.foldl_cons, ih, Workspace.published, Workspace.published, List.foldl_cons]
      congr 1
      rw [Publication.logged, Publication.publish]
      split
      · simp only [fst_foldl_logged]
      · rfl

end Workspace

namespace Ledger

variable {r : Repository} {h : Host} {l : Ledger} {P : Mutation → Prop} {c : Host.Call}

/-- What holds of the mutations of a run holds of those in its ledger. -/
theorem Only.note (hl : l.Only P) (hc : ∀ number d m, c = .mutate number d m → P m) :
    (l.note h c).Only P := by
  have hwithDraft (number : Nat) : (l.withDraft number none).Only P := by
    refine ⟨hl.saves, fun k draft hdraft => ?_⟩
    rw [drafts_withDraft] at hdraft
    split at hdraft
    · cases hdraft
    · exact hl.drafts k draft hdraft
  cases c with
  | opening workspace => exact hl
  | close number => exact hl
  | refresh number keep =>
      rw [Ledger.note]
      split
      · exact hwithDraft number
      · exact hl
  | save number =>
      rw [Ledger.note]
      cases hdraft : l.drafts number with
      | none => exact hl
      | some draft =>
          simp only
          split
          · refine ⟨fun p hp => ?_, (hwithDraft number).drafts⟩
            rcases List.mem_append.1 hp with hp | hp
            · exact hl.saves p hp
            · rw [List.mem_singleton.1 hp]
              exact hl.drafts number draft hdraft
          · exact hl
  | mutate number d m =>
      simp only [Ledger.note]
      split
      · refine ⟨hl.saves, fun k draft hdraft call hcall => ?_⟩
        rw [drafts_withDraft] at hdraft
        split at hdraft
        · rw [← Option.some.inj hdraft] at hcall
          rcases List.mem_append.1 hcall with hcall | hcall
          · cases hold : l.drafts number with
            | none =>
                rw [hold] at hcall
                cases hcall
            | some old =>
                rw [hold] at hcall
                exact hl.drafts number old hold call hcall
          · rw [List.mem_singleton.1 hcall]
            exact hc number d m rfl
        · exact hl.drafts k draft hdraft call hcall
      · exact hl

end Ledger

namespace Host

variable {r : Repository} {calls : List Call}

theorem agrees_ledger (r : Repository) (calls : List Call) :
    Ledger.Agrees r ((Host.mk r []).run calls) (Host.ledger ⟨r, []⟩ calls) := by
  induction calls using List.reverseRecOn with
  | nil => exact Ledger.agrees_blank r
  | append_singleton calls c ih =>
      rw [run_concat, ledger_concat]
      exact ih.note c

theorem only_ledger {P : Mutation → Prop}
    (hcalls : ∀ number d m, Call.mutate number d m ∈ calls → P m) :
    (Host.ledger ⟨r, []⟩ calls).Only P := by
  induction calls using List.reverseRecOn with
  | nil => exact ⟨fun p hp => (nomatch hp), fun number draft hdraft => (nomatch hdraft)⟩
  | append_singleton calls c ih =>
      rw [ledger_concat]
      refine (ih fun number d m hm => hcalls number d m (List.mem_append_left _ hm)).note ?_
      rintro number d m rfl
      exact hcalls number d m List.mem_concat_self

/-- What holds of the version histories of a host after a run. -/
structure Chronicle (r : Repository) (calls : List Call) : Prop where
  /-- Every history lists the root version and then the versions in the order of their numbers, each
  with its copy where its name says. -/
  listed : ∀ workspace w path history, ((Host.mk r []).run calls).Holds workspace w →
    w.history? path = some history → history.Listed path
  /-- A checkin of a versionable node succeeds.  It adds the version that it returns to those of the
  node, behind the others, and leaves all other histories alone. -/
  checksIn : ∀ number d path labels created n,
    (((Host.mk r []).run calls).session number).live = true →
    (((Host.mk r []).run calls).current number).node? path = some n →
    n.declares Vocab.Name.mixVersionable = true →
    ∃ v h', (mutate number d (.checkin path labels created)).run ((Host.mk r []).run calls) =
        .ok (.version v) h' ∧
      (h'.current number).versionsOf path =
        (((Host.mk r []).run calls).current number).versionsOf path ++ [v] ∧
      ∀ k, k ≠ path → (h'.current number).history? k =
        (((Host.mk r []).run calls).current number).history? k
  /-- Of a node of a saved state a client sees the versions that successful checkins have made since
  the node was last created, in their order. -/
  saved : ∀ workspace path n,
    (((Host.mk r []).run calls).repository.committed workspace).node? path = some n →
    ((((Host.mk r []).run calls).repository.committed workspace).versionsOf path).map
        Version.unlabelled =
      (((Host.mk r []).ledger calls).savedLog r workspace path).map Version.unlabelled
  /-- So it is with the nodes of a staged copy. -/
  staged : ∀ number draft path n, ((Host.mk r []).ledger calls).drafts number = some draft →
    (((Host.mk r []).run calls).current number).node? path = some n →
    ((((Host.mk r []).run calls).current number).versionsOf path).map Version.unlabelled =
      (((Host.mk r []).ledger calls).stagedLog r
        (((Host.mk r []).run calls).session number).workspace path draft).map Version.unlabelled
  /-- A label is added to the version of the name in the history of the node, and nowhere else. -/
  labelled : ∀ number d path name label k,
    (((Host.mk r []).run calls).session number).live = true →
    ((((Host.mk r []).run calls).after
        (.mutate number d (.addVersionLabel path name label))).current number).history? k =
      ((((Host.mk r []).run calls).current number).history? k).map fun history =>
        if k = path then history.relabelled name label else history

/-- All states of a host are in order, if no node is added at a path with a reserved segment. -/
theorem chronicled_of_holds (hr : r.IsNew)
    (hcalls : ∀ number d m, Call.mutate number d m ∈ calls → m.Unreserved)
    {workspace : String} {w : Workspace}
    (hw : ((Host.mk r []).run calls).Holds workspace w) : w.Chronicled := by
  refine of_undergone (hr.of_committed Workspace.chronicled_empty Workspace.chronicled_withRoot
    workspace) (fun w version hw => ?_) (fun d m hm => ?_) hw
  · exact hw.of_sameNodes (hw.filed.of_tables rfl rfl) (Workspace.sameNodes_of_nodes_eq rfl)
      fun _ => rfl
  · obtain ⟨number, hmem⟩ := hm.mem
    exact Edit.keptAt_chronicled.edit d m (hcalls number d m hmem) fun _ _ => trivial

/-- A checkin of a versionable node in an open session succeeds, and adds the version that it
returns behind the others of the node. -/
theorem exists_mutate_checkin {h : Host} {number : Nat} {path : String} {n : Node}
    (hw : (h.current number).Chronicled) (hlive : (h.session number).live = true)
    (hn : (h.current number).node? path = some n)
    (hversionable : n.declares Vocab.Name.mixVersionable = true)
    (d : Draws) (labels : List String) (created : Option Instant) :
    ∃ v h', (mutate number d (.checkin path labels created)).run h = .ok (.version v) h' ∧
      (h'.current number).versionsOf path = (h.current number).versionsOf path ++ [v] ∧
      ∀ k, k ≠ path → (h'.current number).history? k = (h.current number).history? k := by
  obtain ⟨v, w', hrun⟩ : ∃ v w', (Workspace.checkin d.identifier path labels
      (created.getD d.now)).run (h.current number) = .ok v w' :=
    ⟨_, hw.exists_checkin hn hversionable d.identifier labels (created.getD d.now)⟩
  have hedit : ((Mutation.checkin path labels created).edit d).run (h.current number) =
      .ok (.version v) w' := by
    rw [Mutation.edit, map_eq_pure_bind, EStateM.run_bind, hrun]
    rfl
  obtain ⟨hmutate, hleft⟩ := mutate_run_of_edit hlive rfl hedit
  refine ⟨v, _, hmutate, ?_, fun k hk => ?_⟩
  · rw [hleft, hw.versionsOf_checkin hrun, if_pos rfl]
  · rw [hleft]
    exact (hw.filed.snapshot_of_checkin (hw.proper _ _) hrun).history k hk

/-- The log of a saved state tells the versions of a node. -/
theorem tells_logAfter (hr : r.IsNew) (workspace path : String) {saves : List Publication}
    (hsaves : ∀ p ∈ saves, ∀ call ∈ p.calls, call.2.Unreserved) :
    Workspace.Tells path (Ledger.logAfter r workspace path saves) := by
  have hfirst : Workspace.Tells path (r.committed workspace, []) :=
    hr.of_committed (P := fun w => Workspace.Tells path (w, []))
      (.nil Workspace.chronicled_empty Std.ExtTreeMap.getElem?_empty)
      (fun identifier => .nil (Workspace.chronicled_withRoot identifier)
        Std.ExtTreeMap.getElem?_empty) workspace
  exact hfirst.foldl_publication hsaves

/-- The log of all saves goes along with what is saved. -/
theorem fst_logAfter_saves (r : Repository) (calls : List Call) (workspace path : String) :
    (Ledger.logAfter r workspace path ((Host.mk r []).ledger calls).saves).1 =
      ((Host.mk r []).run calls).repository.committed workspace :=
  (Workspace.fst_foldl_publication _ _).trans ((agrees_ledger r calls).committed workspace).symm

/-- The log of a draft goes along with what is staged. -/
theorem fst_foldl_draft {number : Nat} {draft : Draft}
    (hdraft : ((Host.mk r []).ledger calls).drafts number = some draft) (path : String) :
    (draft.calls.foldl (Workspace.logged path)
        (Ledger.logAfter r (((Host.mk r []).run calls).session number).workspace path
          (((Host.mk r []).ledger calls).saves.take draft.since))).1 =
      ((Host.mk r []).run calls).current number := by
  have hagrees := agrees_ledger r calls
  rw [Workspace.fst_foldl_logged, Ledger.logAfter, Workspace.fst_foldl_publication,
    ← (hagrees.rooted number draft hdraft).base, current, Session.current, hagrees.staged, hdraft]
  rfl

/-- **Version histories never skip, reuse or collide**, if no node is added at a path with a
reserved or an empty segment. -/
theorem chronicle_of_unreserved (hr : r.IsNew)
    (hcalls : ∀ number d m, Call.mutate number d m ∈ calls → m.Unreserved) :
    Chronicle r calls := by
  have hcurrent (number : Nat) : (((Host.mk r []).run calls).current number).Chronicled :=
    chronicled_of_holds hr hcalls (holds_current _ number)
  have honly : ((Host.mk r []).ledger calls).Only Mutation.Unreserved := only_ledger hcalls
  refine
    { listed := fun workspace w path history hw hh =>
        (chronicled_of_holds hr hcalls hw).listed path history hh
      checksIn := fun number d path labels created n hlive hn hversionable =>
        exists_mutate_checkin (hcurrent number) hlive hn hversionable d labels created
      saved := fun workspace path n hn => ?_
      staged := fun number draft path n hdraft hn => ?_
      labelled := fun number d path name label k hlive => ?_ }
  · have hlog := tells_logAfter hr workspace path honly.saves
    rw [← fst_logAfter_saves r calls workspace path] at hn ⊢
    exact hlog.log n hn
  · have hlog := tells_logAfter hr (((Host.mk r []).run calls).session number).workspace path
      fun p hp => honly.saves p (List.mem_of_mem_take (i := draft.since) hp)
    rw [← fst_foldl_draft hdraft path] at hn ⊢
    exact (hlog.foldl_logged (honly.drafts number draft hdraft)).log n hn
  · rw [current_after_mutate_eq, if_pos ⟨hlive, rfl⟩, Mutation.edit, leftBy_map]
    exact (hcurrent number).history?_addVersionLabel path name label k

/-- A run in which a node is checked in twice, the copies of the first version being removed in
between, and saved; then the node is removed, created again and checked in. -/
def renumbering : List Call :=
  [.opening "default", .mutate 0 (numbered 1) (.createContainer "/a"),
    .mutate 0 (numbered 2) (.addMixin "/a" Vocab.Name.mixVersionable),
    .mutate 0 (numbered 3) (.checkin "/a" [] none),
    .mutate 0 (numbered 4) (.removeNode "/a/fcr:versions"),
    .mutate 0 (numbered 5) (.checkin "/a" ["second"] none), .save 0,
    .mutate 0 (numbered 6) (.removeNode "/a"), .mutate 0 (numbered 7) (.createContainer "/a"),
    .mutate 0 (numbered 8) (.addMixin "/a" Vocab.Name.mixVersionable),
    .mutate 0 (numbered 9) (.checkin "/a" [] none)]

theorem unreserved_renumbering {number : Nat} {d : Draws} {m : Mutation}
    (hm : Call.mutate number d m ∈ renumbering) : m.Unreserved := by
  have ha : Path.Unreserved "/a" := by
    refine ⟨[⟨"a", by decide, by decide⟩], by decide, fun s hs => ?_⟩
    rw [List.mem_singleton.1 hs]
    decide
  have hpaths : ∀ c ∈ renumbering, ∀ path ∈ c.newPath?, path = "/a" := by decide
  intro path hpath
  rw [hpaths _ hm path hpath]
  exact fun _ => ha

/-- The histories of the run are in order: the saved state has both versions of the node in its
first life, and the staged one has the version in its second. -/
theorem chronicle_renumbering :
    let h := (Host.start "root").run renumbering
    Chronicle (.start "root") renumbering ∧
      ((h.repository.committed "default").versionsOf "/a").map (·.name) = ["1.0", "1.1"] ∧
      ((((Host.start "root").ledger renumbering).savedLog (.start "root") "default" "/a").map
        (·.name)) = ["1.0", "1.1"] ∧
      ((h.current 0).versionsOf "/a").map (·.name) = ["1.0"] ∧
      (((Host.start "root").ledger renumbering).drafts 0).map (fun draft =>
        (((Host.start "root").ledger renumbering).stagedLog (.start "root") "default" "/a"
          draft).map (·.name)) = some ["1.0"] := by
  intro h
  exact ⟨chronicle_of_unreserved (Repository.isNew_start "root")
      (fun _ _ _ => unreserved_renumbering),
    by decide +kernel, by decide +kernel, by decide +kernel, by decide +kernel⟩

end Host

end LinkedStore
