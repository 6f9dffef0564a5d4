import LinkedStore.Proofs.Host.Frame
import LinkedStore.Proofs.Host.Pinning
import LinkedStore.Proofs.Host.VersionLog

/-!
# Refreshing without giving up changes

A session may refresh and keep its changes.  That does nothing: the changes are not brought onto
what has been saved in the meantime.  The session goes on reading the saved state of the time when
its copy was taken, with its own mutations made on it, so that what others have saved since stays
out of sight even at paths that it has not touched; and its save is accepted only if the workspace
has not been saved since the copy was taken, be it before the refresh or after it.  So the refresh
brings the changes onto the saved state exactly if there was nothing to bring them onto.

Which mutations are pending, and which saves have come since, is read off the ledger of the run.

## Main definitions

* `Reader.ReadsAt` : what a reader answers at a path is what a state holds there.
* `Host.Rebased` : the changes of a session stand on what is saved.
* `Host.KeepsChanges` : what becomes of a session that refreshes and keeps its changes.

## Main statements

* `Host.GoesOn.after`, `Host.goesOn_run` : what keeps a draft going.
* `Host.keepsChanges_of_refresh` : every session with pending changes keeps them so.
-/

namespace LinkedStore

/-! ### Reading at a path -/

/-- What a reader answers at a path is what a state holds there. -/
structure Reader.ReadsAt (a : Reader) (w : Workspace) (path : String) : Prop where
  node : a.node path = .ok (w.node? path)
  properties : a.properties path = .ok ((w.propertiesOf path).map .ok)
  property : ∀ name, a.property path name = .ok (w.property? path name)
  history : a.history path = .ok (w.history? path)

/-- An open session answers at every path what its state holds there. -/
theorem Session.readsAt_reader (r : Repository) {s : Session} (hlive : s.live = true)
    (path : String) : (s.reader r).ReadsAt (s.current (r.committed s.workspace)) path where
  node := answer_eq_ok_iff.2 ⟨hlive, rfl⟩
  properties := answer_eq_ok_iff.2 ⟨hlive, rfl⟩
  property _ := answer_eq_ok_iff.2 ⟨hlive, rfl⟩
  history := answer_eq_ok_iff.2 ⟨hlive, rfl⟩

theorem Reader.ReadsAt.of_sameAt {a : Reader} {w w' : Workspace} {path : String}
    (ha : a.ReadsAt w' path) (h : w.SameAt w' path) : a.ReadsAt w path where
  node := h.node ▸ ha.node
  properties := h.propertiesOf ▸ ha.properties
  property name := h.property? name ▸ ha.property name
  history := h.history ▸ ha.history

namespace Host

variable {r : Repository} {h h' : Host} {l l' : Ledger} {calls rest : List Call} {number : Nat}
  {c : Call} {draft : Draft} {more : List (Draws × Mutation)}

/-! ### Drafts that go on -/

/-- A call neither saves a session nor closes it nor drops its changes. -/
structure Call.LeavesPending (number : Nat) (c : Call) : Prop where
  save : c ≠ .save number
  drop : c ≠ .refresh number false
  close : c ≠ .close number

/-- The mutation of a session that a call is. -/
def Call.mutationOf? (number : Nat) : Call → Option (Draws × Mutation)
  | .mutate k d m => if k = number then some (d, m) else none
  | _ => none

/-- The mutations of a session among calls. -/
def mutationsOf (number : Nat) (calls : List Call) : List (Draws × Mutation) :=
  calls.filterMap (Call.mutationOf? number)

theorem mutationsOf_concat (number : Nat) (calls : List Call) (c : Call) :
    mutationsOf number (calls ++ [c]) =
      mutationsOf number calls ++ (c.mutationOf? number).toList := by
  rw [mutationsOf, mutationsOf, List.filterMap_append, List.filterMap_eq_flatMap_toList _ [c],
    List.flatMap_singleton]

/-- A session goes on with a draft: it is still open, in the same workspace, and has added mutations
to the draft, while saves have been added to the ledger. -/
structure GoesOn (h h' : Host) (l l' : Ledger) (number : Nat) (draft : Draft)
    (more : List (Draws × Mutation)) : Prop where
  live : (h'.session number).live = true
  workspace : (h'.session number).workspace = (h.session number).workspace
  draft : l'.drafts number = some { draft with calls := draft.calls ++ more }
  saves : l.saves <+: l'.saves

/-- A call that leaves the changes of an open session pending adds to its draft the mutation that it
is, if it is one of the session. -/
theorem drafts_note (hl : Ledger.Agrees r h l) (hlive : (h.session number).live = true)
    (hdraft : l.drafts number = some draft) (hc : c.LeavesPending number) :
    (l.note h c).drafts number =
      some { draft with calls := draft.calls ++ (c.mutationOf? number).toList } := by
  have hkept : l.drafts number = some { draft with calls := draft.calls ++ [] } := by
    rw [hdraft, List.append_nil]
  cases c with
  | opening workspace => exact hkept
  | close k => exact hkept
  | mutate k d m =>
      by_cases hk : k = number
      · subst hk
        have hstill := Mutation.staged_leftBy_run (h.committedFor k) d m hlive
        rw [if_neg (by simp [hl.staged_eq hdraft])] at hstill
        simp only [Ledger.note, h.session_after_mutate, if_true, Mutation.live_leftBy_run, hlive,
          hstill, Option.isSome_some, and_self, Ledger.drafts_withDraft, hdraft, Option.getD_some,
          Call.mutationOf?, Option.toList_some]
      · rw [Call.mutationOf?, if_neg hk, Option.toList_none, Ledger.note]
        split
        · rw [Ledger.drafts_withDraft, if_neg (Ne.symm hk), hkept]
        · exact hkept
  | save k =>
      have hk : number ≠ k := by
        rintro rfl
        exact hc.save rfl
      rw [Ledger.note]
      cases l.drafts k with
      | none => exact hkept
      | some other =>
          cases h.accepts (.save k) with
          | false => exact hkept
          | true => exact (if_neg hk).trans hkept
  | refresh k keep =>
      rw [Ledger.note]
      split
      · rename_i hdrop
        have hk : number ≠ k := by
          rintro rfl
          exact hc.drop (by rw [hdrop.2])
        exact (if_neg hk).trans hkept
      · exact hkept

/-- A call takes no save out of the ledger. -/
theorem saves_note (l : Ledger) (h : Host) (c : Call) : l.saves <+: (l.note h c).saves := by
  cases c with
  | opening workspace => exact List.prefix_rfl
  | close k => exact List.prefix_rfl
  | mutate k d m =>
      rw [Ledger.note]
      split <;> exact List.prefix_rfl
  | save k =>
      rw [Ledger.note]
      cases l.drafts k with
      | none => exact List.prefix_rfl
      | some other =>
          cases h.accepts (.save k) with
          | false => exact List.prefix_rfl
          | true => exact List.prefix_append _ _
  | refresh k keep =>
      rw [Ledger.note]
      split <;> exact List.prefix_rfl

/-- A session goes on with its draft through every call that leaves its changes pending. -/
theorem GoesOn.after (hon : GoesOn h h' l l' number draft more) (hl : Ledger.Agrees r h' l')
    (hc : c.LeavesPending number) :
    GoesOn h (h'.after c) l (l'.note h' c) number draft
      (more ++ (c.mutationOf? number).toList) := by
  have hsession : ((h'.after c).session number).live = (h'.session number).live ∧
      ((h'.after c).session number).workspace = (h'.session number).workspace := by
    rcases h'.session_after_cases number c (h'.lt_length_of_live number hon.live) with
      heq | ⟨d, m, -, heq⟩ | ⟨-, heq⟩ | ⟨heq, -⟩
    · rw [heq]
      exact ⟨rfl, rfl⟩
    · rw [heq, Mutation.live_leftBy_run, Mutation.workspace_leftBy_run]
      exact ⟨rfl, rfl⟩
    · rw [heq]
      exact ⟨rfl, rfl⟩
    · exact absurd heq hc.close
  refine ⟨hsession.1.trans hon.live, hsession.2.trans hon.workspace, ?_,
    hon.saves.trans (saves_note l' h' c)⟩
  rw [drafts_note hl hon.live hon.draft hc, List.append_assoc]

/-- **A session goes on with its draft**, whatever the other sessions do. -/
theorem goesOn_run (hlive : (((Host.mk r []).run calls).session number).live = true)
    (hdraft : ((Host.mk r []).ledger calls).drafts number = some draft)
    (hrest : ∀ c ∈ rest, c.LeavesPending number) :
    GoesOn ((Host.mk r []).run calls) ((Host.mk r []).run (calls ++ rest))
      ((Host.mk r []).ledger calls) ((Host.mk r []).ledger (calls ++ rest)) number draft
      (mutationsOf number rest) := by
  induction rest using List.reverseRecOn with
  | nil =>
      rw [List.append_nil]
      exact ⟨hlive, rfl, by rw [hdraft, mutationsOf, List.filterMap_nil, List.append_nil],
        List.prefix_rfl⟩
  | append_singleton rest c ih =>
      rw [← List.append_assoc, run_concat, ledger_concat, mutationsOf_concat]
      exact (ih fun c' hc' => hrest c' (List.mem_append_left _ hc')).after (agrees_ledger r _)
        (hrest c List.mem_concat_self)

/-! ### Refreshing -/

/-- The changes of a session stand on what is saved: at every path that they do not touch the
session reads what is saved there, and it may save. -/
structure Rebased (h : Host) (number : Nat) (draft : Draft) : Prop where
  untouched : ∀ path, (∀ call ∈ draft.calls, ¬call.2.Touches path) →
    ((Access.direct number).reader h).ReadsAt (h.committedFor number) path
  accepts : h.accepts (.save number) = true

/-- What becomes of a session of `h` with a draft that refreshes and keeps its changes, and has made
some more when the host is `h'`.  The saves since the copy was taken are those before the refresh
and those since. -/
structure KeepsChanges (h h' : Host) (number : Nat) (draft : Draft)
    (more : List (Draws × Mutation)) (before since : List Publication) : Prop where
  /-- The refresh is accepted and does nothing. -/
  accepts : h.accepts (.refresh number true) = true
  unchanged : h.after (.refresh number true) = h
  /-- Its changes are pending, and it reads them made on what was saved when its copy was taken. -/
  pending : ((Access.direct number).reader h').hasPendingChanges = .ok true
  reads : ∀ path, ((Access.direct number).reader h').ReadsAt
    (draft.base.replay (draft.calls ++ more)) path
  /-- Where it has changed nothing, it reads what was saved then. -/
  untouched : ∀ path, (∀ call ∈ draft.calls ++ more, ¬call.2.Touches path) →
    ((Access.direct number).reader h').ReadsAt draft.base path
  /-- The changes stand on what is saved exactly if nothing has been saved in the workspace since
  the copy was taken. -/
  rebased_iff : (h.after (.refresh number true)).Rebased number draft ↔
    ∀ p ∈ before, p.workspace ≠ (h.session number).workspace
  /-- Its save is accepted exactly if nothing has been saved in the workspace since then, be it
  before the refresh or after it. -/
  saves_iff : h'.accepts (.save number) = true ↔
    ∀ p ∈ before ++ since, p.workspace ≠ (h.session number).workspace

/-- The sessions with pending changes are the open ones with a draft. -/
theorem hasPendingChanges_eq_true_iff (hl : Ledger.Agrees r h l) :
    ((Access.direct number).reader h).hasPendingChanges = .ok true ↔
      (h.session number).live = true ∧ ∃ draft, l.drafts number = some draft := by
  refine Session.answer_eq_ok_iff.trans (and_congr_right fun _ => ?_)
  rw [hl.staged, Option.isSome_map, Option.isSome_iff_exists]

/-- The save of a session with a draft is accepted exactly if the workspace has not been saved since
the copy was taken. -/
theorem accepts_save_iff (hl : Ledger.Agrees r h l) (hlive : (h.session number).live = true)
    (hdraft : l.drafts number = some draft) :
    h.accepts (.save number) = true ↔
      ∀ p ∈ l.saves.drop draft.since, p.workspace ≠ (h.session number).workspace := by
  rw [← Bool.not_eq_false, hl.refused_iff hlive]
  constructor
  · intro hnone p hp hworkspace
    exact hnone ⟨draft, hdraft, p, hp, hworkspace, (hl.rooted number draft hdraft).others p hp⟩
  · rintro hall ⟨other, hother, p, hp, hworkspace, -⟩
    obtain rfl := Option.some.inj (hdraft.symm.trans hother)
    exact hall p hp hworkspace

/-- A session with a draft reads its mutations made on the state that its copy was taken from. -/
theorem readsAt_of_draft (hl : Ledger.Agrees r h l) (hlive : (h.session number).live = true)
    (hdraft : l.drafts number = some draft) (path : String) :
    ((Access.direct number).reader h).ReadsAt draft.content path := by
  have hreads := Session.readsAt_reader h.repository hlive path
  rwa [Session.current, hl.staged_eq hdraft, Option.getD_some] at hreads

/-- At a path that its mutations do not touch it reads what that state holds. -/
theorem readsAt_base (hl : Ledger.Agrees r h l) (hlive : (h.session number).live = true)
    (hdraft : l.drafts number = some draft) {path : String}
    (hpath : ∀ call ∈ draft.calls, ¬call.2.Touches path) :
    ((Access.direct number).reader h).ReadsAt draft.base path :=
  (readsAt_of_draft hl hlive hdraft path).of_sameAt (draft.base.sameAt_replay hpath)

/-- The changes of a session stand on what is saved exactly if it may save. -/
theorem rebased_iff (hl : Ledger.Agrees r h l) (hlive : (h.session number).live = true)
    (hdraft : l.drafts number = some draft) :
    h.Rebased number draft ↔ h.accepts (.save number) = true := by
  refine ⟨Rebased.accepts, fun haccepts => ⟨fun path hpath => ?_, haccepts⟩⟩
  have hversion := ((h.accepts_save number).1 haccepts).2 draft.content (hl.staged_eq hdraft)
  rw [← hl.base_eq hdraft hversion]
  exact readsAt_base hl hlive hdraft hpath

/-- **A session that refreshes and keeps its changes is where it was**, and stays there whatever
the other sessions do, until it saves, drops its changes or is closed. -/
theorem keepsChanges_of_refresh
    (hpending : ((Access.direct number).reader ((Host.mk r []).run calls)).hasPendingChanges =
      .ok true)
    (hrest : ∀ c ∈ rest, c.LeavesPending number) :
    let h := (Host.mk r []).run calls
    let h' := (Host.mk r []).run (calls ++ .refresh number true :: rest)
    let l := (Host.mk r []).ledger calls
    let l' := (Host.mk r []).ledger (calls ++ .refresh number true :: rest)
    ∃ draft, l.drafts number = some draft ∧
      draft.Rooted r (h.session number).workspace number l.saves ∧
      h.KeepsChanges h' number draft (mutationsOf number rest) (l.saves.drop draft.since)
        (l'.saves.drop l.saves.length) := by
  intro h h' l l'
  have hl : Ledger.Agrees r h l := agrees_ledger r calls
  have hl' : Ledger.Agrees r h' l' := agrees_ledger r _
  obtain ⟨hlive, draft, hdraft⟩ := (hasPendingChanges_eq_true_iff hl).1 hpending
  have hrooted := hl.rooted number draft hdraft
  have hcalls : ∀ c ∈ Call.refresh number true :: rest, c.LeavesPending number :=
    List.forall_mem_cons.2 ⟨⟨nofun, nofun, nofun⟩, hrest⟩
  have hon : GoesOn h h' l l' number draft (mutationsOf number rest) :=
    goesOn_run hlive hdraft hcalls
  have hsaves : l'.saves.drop draft.since =
      l.saves.drop draft.since ++ l'.saves.drop l.saves.length := by
    obtain ⟨since, hsince⟩ := hon.saves
    rw [← hsince, List.drop_append_of_le_length hrooted.since_le, List.drop_left]
  refine ⟨draft, hdraft, hrooted,
    { accepts := ?_
      unchanged := h.after_refresh_true number
      pending := (hasPendingChanges_eq_true_iff hl').2 ⟨hon.live, _, hon.draft⟩
      reads := readsAt_of_draft hl' hon.live hon.draft
      untouched := fun path hpath => readsAt_base hl' hon.live hon.draft hpath
      rebased_iff := ?_
      saves_iff := ?_ }⟩
  · rw [accepts_refresh, hlive]
  · rw [h.after_refresh_true, rebased_iff hl hlive hdraft, accepts_save_iff hl hlive hdraft]
  · rw [accepts_save_iff hl' hon.live hon.draft, hsaves, hon.workspace]

/-- The first session adds a node, and then the second one adds another and saves. -/
def overtaken : List Call :=
  neighbours ++ .mutate 0 ⟨toString, .epoch⟩ (.createContainer "/a") :: overtaking

/-- The first session has kept its node through a refresh, and adds one below it.  The node that the
second session has saved is out of its sight, and its own save is refused. -/
theorem keepsChanges_of_refresh_overtaken :
    let rest : List Call := [.mutate 0 ⟨toString, .epoch⟩ (.createContainer "/a/c")]
    let h := (Host.start "root").run overtaken
    let h' := (Host.start "root").run (overtaken ++ .refresh 0 true :: rest)
    let l := (Host.start "root").ledger overtaken
    let l' := (Host.start "root").ledger (overtaken ++ .refresh 0 true :: rest)
    ((Access.direct 0).reader h).hasPendingChanges = .ok true ∧
      (∀ c ∈ rest, c.LeavesPending 0) ∧
      (∃ draft, l.drafts 0 = some draft ∧
        draft.Rooted (.start "root") (h.session 0).workspace 0 l.saves ∧
        h.KeepsChanges h' 0 draft (mutationsOf 0 rest) (l.saves.drop draft.since)
          (l'.saves.drop l.saves.length)) ∧
      ((h'.current 0).node? "/a").isSome = true ∧ ((h'.current 0).node? "/a/c").isSome = true ∧
      ((h'.committedFor 0).node? "/b").isSome = true ∧ (h'.current 0).node? "/b" = none ∧
      h'.accepts (.save 0) = false := by
  intro rest h h' l l'
  have hpending : ((Access.direct 0).reader h).hasPendingChanges = .ok true := rfl
  have hrest : ∀ c ∈ rest, c.LeavesPending 0 := by
    intro c hc
    obtain rfl := List.mem_singleton.1 hc
    exact ⟨nofun, nofun, nofun⟩
  exact ⟨hpending, hrest, keepsChanges_of_refresh (r := .start "root") hpending hrest,
    by decide +kernel, by decide +kernel, by decide +kernel, by decide +kernel, by decide +kernel⟩

/-- So changes that a refresh keeps do not always stand on what is saved. -/
theorem not_rebased_of_refresh :
    ¬∀ (calls : List Call) (number : Nat) (draft : Draft),
      ((Access.direct number).reader ((Host.start "root").run calls)).hasPendingChanges =
        .ok true →
      ((Host.start "root").ledger calls).drafts number = some draft →
      (((Host.start "root").run calls).after (.refresh number true)).Rebased number draft := by
  intro hall
  have hpending :
      ((Access.direct 0).reader ((Host.start "root").run overtaken)).hasPendingChanges =
        .ok true := rfl
  obtain ⟨-, draft, hdraft⟩ :=
    (hasPendingChanges_eq_true_iff (agrees_ledger (.start "root") overtaken)).1 hpending
  exact absurd (hall overtaken 0 draft hpending hdraft).accepts (by decide +kernel)

end Host

end LinkedStore
