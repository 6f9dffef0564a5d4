import LinkedStore.Proofs.Host.Run
import Mathlib.Data.List.Induction

/-!
# No update is lost

An observer of a run keeps a ledger: of each session the mutations since its staged copy was
taken, and of each save that published a copy the mutations that it published.  The observer looks
neither at versions nor into copies, and still the ledger tells the whole state: the saved states
are the mutations of the saves replayed in the order of the saves, each staged copy is the
mutations of its session replayed on the saved state it was taken from, and a save is refused
exactly if another session has saved in between.

The invariant that carries this is that a staged copy was taken from the state that the first
saves of the ledger published, so that equal versions of the copy and of the saved state mean that
no save has come in between.

## Main definitions

* `Workspace.replay` : a state with mutations replayed on it.
* `Ledger` : what the observer has noted.
* `Ledger.note` : what the observer notes of a call.
* `Host.ledger` : the ledger of a run.
* `Ledger.Faithful` : a ledger tells the state of a host.

## Main statements

* `Ledger.Agrees.note` : the invariant is kept by every call.
* `Host.faithful_ledger` : the ledger of a run tells the state of the host after it.
-/

namespace LinkedStore

/-! ### Replaying mutations -/

namespace Workspace

/-- The state that a mutation, with what is drawn for it, makes of the copy of an open session. -/
def applied (w : Workspace) (call : Draws × Mutation) : Workspace :=
  (leftBy (call.2.run w call.1) ⟨"", some w, true⟩).staged.getD w

/-- The state with mutations replayed on it, one after another. -/
def replay (w : Workspace) (calls : List (Draws × Mutation)) : Workspace := calls.foldl applied w

variable (w : Workspace)

theorem applied_eq (d : Draws) (m : Mutation) : w.applied (d, m) = leftBy (m.edit d) w := by
  rw [applied, Mutation.leftBy_run]
  cases horphan : m.orphan? with
  | none => rfl
  | some path =>
      rw [if_neg (by simp), leftBy, Mutation.run_edit_of_orphan d horphan]
      rfl

theorem applied_of_orphan (d : Draws) {m : Mutation} (h : m.orphan? ≠ none) :
    w.applied (d, m) = w := by
  obtain ⟨path, horphan⟩ := Option.ne_none_iff_exists'.1 h
  rw [applied_eq, leftBy, Mutation.run_edit_of_orphan d horphan]

theorem version_applied (call : Draws × Mutation) : (w.applied call).version = w.version := by
  rw [applied_eq]
  exact Edit.keepsVersion_edit call.1 call.2 w rfl

theorem replay_concat (calls : List (Draws × Mutation)) (call : Draws × Mutation) :
    w.replay (calls ++ [call]) = (w.replay calls).applied call := by
  rw [replay, replay, List.foldl_append, List.foldl_cons, List.foldl_nil]

theorem version_replay (calls : List (Draws × Mutation)) :
    (w.replay calls).version = w.version := version_foldl w version_applied calls

end Workspace

/-- A mutation of an open session does to its copy what it does when it is replayed.  A session
without a copy takes one from the saved state, unless the mutation is refused before it writes. -/
theorem Mutation.staged_leftBy_run (committed : Workspace) (d : Draws) (m : Mutation)
    {s : Session} (hlive : s.live = true) :
    (leftBy (m.run committed d) s).staged =
      if s.staged = none ∧ m.orphan? ≠ none then none
      else some ((s.current committed).applied (d, m)) := by
  rw [Mutation.leftBy_run, Workspace.applied_eq, Session.current]
  cases horphan : m.orphan? with
  | none => simp [hlive]
  | some path =>
      cases hstaged : s.staged with
      | none => simp [hstaged]
      | some w => simp [hstaged, leftBy, Mutation.run_edit_of_orphan d horphan]

/-! ### Ledgers -/

/-- What a session has done since its staged copy was taken. -/
structure Draft where
  /-- The saved state when the copy was taken. -/
  base : Workspace
  /-- How many saves the ledger held when the copy was taken. -/
  since : Nat
  calls : List (Draws × Mutation)

/-- The mutations that a save published, with the number of the session and its workspace. -/
structure Publication where
  number : Nat
  workspace : String
  calls : List (Draws × Mutation)

/-- What an observer has noted of a run: the saves that published a copy, in their order, and what
each session has not published yet. -/
structure Ledger where
  saves : List Publication
  drafts : Nat → Option Draft

/-- The copy that a draft describes. -/
def Draft.content (draft : Draft) : Workspace := draft.base.replay draft.calls

/-- A saved state of a workspace, and after a save: if it was to this workspace, its mutations are
replayed, and the version counts the save. -/
def Publication.publish (workspace : String) (w : Workspace) (p : Publication) : Workspace :=
  if p.workspace = workspace then
    { w.replay p.calls with version := (w.replay p.calls).version + 1 }
  else w

/-- The saved state of a workspace after saves. -/
def Workspace.published (w : Workspace) (workspace : String) (saves : List Publication) :
    Workspace :=
  saves.foldl (Publication.publish workspace) w

namespace Ledger

/-- The ledger before a run. -/
def blank : Ledger := ⟨[], fun _ => none⟩

/-- The ledger with the draft of a session replaced. -/
def withDraft (l : Ledger) (number : Nat) (draft? : Option Draft) : Ledger :=
  { l with drafts := fun k => if k = number then draft? else l.drafts k }

/-- What the observer notes of a call on a host.  A mutation of an open session counts once the
session has changes pending; the first one that does starts a draft. -/
def note (h : Host) (l : Ledger) : Host.Call → Ledger
  | .mutate number d m =>
      let s := (h.after (.mutate number d m)).session number
      if s.live ∧ s.staged.isSome then
        let draft := (l.drafts number).getD ⟨h.committedFor number, l.saves.length, []⟩
        l.withDraft number (some { draft with calls := draft.calls ++ [(d, m)] })
      else l
  | .save number =>
      match l.drafts number with
      | none => l
      | some draft =>
          if h.accepts (.save number) then
            { l.withDraft number none with
              saves := l.saves ++ [⟨number, (h.session number).workspace, draft.calls⟩] }
          else l
  | .refresh number keep =>
      if h.accepts (.refresh number keep) ∧ keep = false then
        l.withDraft number none
      else l
  | .opening _ | .close _ => l

end Ledger

/-- A host and the ledger kept on it, after one more call. -/
def Host.observe (seen : Host × Ledger) (c : Host.Call) : Host × Ledger :=
  (seen.1.after c, seen.2.note seen.1 c)

/-- The ledger of a run. -/
def Host.ledger (h : Host) (calls : List Host.Call) : Ledger :=
  (calls.foldl Host.observe (h, .blank)).2

theorem Host.foldl_observe (h : Host) (calls : List Host.Call) :
    (calls.foldl Host.observe (h, .blank)).1 = h.run calls := by
  induction calls using List.reverseRecOn with
  | nil => rfl
  | append_singleton calls c ih =>
      rw [List.foldl_append, List.foldl_cons, List.foldl_nil, observe, ih, run_concat]

theorem Host.ledger_concat (h : Host) (calls : List Host.Call) (c : Host.Call) :
    h.ledger (calls ++ [c]) = (h.ledger calls).note (h.run calls) c := by
  rw [ledger, List.foldl_append, List.foldl_cons, List.foldl_nil, observe, foldl_observe, ledger]

/-! ### Saved states -/

namespace Workspace

variable (w : Workspace) (workspace : String) (saves : List Publication)

theorem published_append (more : List Publication) :
    w.published workspace (saves ++ more) =
      (w.published workspace saves).published workspace more :=
  List.foldl_append

theorem published_concat (p : Publication) :
    w.published workspace (saves ++ [p]) = p.publish workspace (w.published workspace saves) := by
  rw [published_append]
  rfl

/-- The version of a saved state counts the saves to its workspace. -/
theorem version_published :
    (w.published workspace saves).version =
      w.version + saves.countP fun p => p.workspace = workspace := by
  induction saves generalizing w with
  | nil => rfl
  | cons p saves ih =>
      rw [published, List.foldl_cons, ← published, ih, Publication.publish]
      by_cases hp : p.workspace = workspace
      · rw [if_pos hp, List.countP_cons_of_pos (by simpa using hp)]
        simp only [version_replay]
        omega
      · rw [if_neg hp, List.countP_cons_of_neg (by simpa using hp)]

theorem published_of_notMem (hsaves : ∀ p ∈ saves, p.workspace ≠ workspace) :
    w.published workspace saves = w := by
  induction saves with
  | nil => rfl
  | cons p saves ih =>
      rw [published, List.foldl_cons, Publication.publish, if_neg (hsaves p List.mem_cons_self)]
      exact ih fun q hq => hsaves q (List.mem_cons_of_mem p hq)

/-- The saved state has the version that it had some saves ago exactly if none of the saves since
was to its workspace. -/
theorem version_published_take {count : Nat} :
    (w.published workspace saves).version = (w.published workspace (saves.take count)).version ↔
      ∀ p ∈ saves.drop count, p.workspace ≠ workspace := by
  have hsplit : w.published workspace saves =
      (w.published workspace (saves.take count)).published workspace (saves.drop count) := by
    rw [← published_append, List.take_append_drop]
  rw [hsplit, version_published, Nat.add_eq_left, List.countP_eq_zero]
  simp

end Workspace

/-! ### What a ledger tells -/

/-- A draft of a session was started on the saved state that the first saves had published, and
the session has not saved since. -/
structure Draft.Rooted (r : Repository) (workspace : String) (number : Nat)
    (saves : List Publication) (draft : Draft) : Prop where
  since_le : draft.since ≤ saves.length
  base : draft.base = (r.committed workspace).published workspace (saves.take draft.since)
  others : ∀ p ∈ saves.drop draft.since, p.number ≠ number

theorem Draft.Rooted.concat {r : Repository} {workspace : String} {number : Nat}
    {saves : List Publication} {draft : Draft}
    (hdraft : draft.Rooted r workspace number saves) (p : Publication) (hp : p.number ≠ number) :
    draft.Rooted r workspace number (saves ++ [p]) where
  since_le := by
    rw [List.length_append]
    exact Nat.le_add_right_of_le hdraft.since_le
  base := by rw [List.take_append_of_le_length hdraft.since_le, hdraft.base]
  others q hq := by
    rw [List.drop_append_of_le_length hdraft.since_le, List.mem_append, List.mem_singleton] at hq
    rcases hq with hq | rfl
    · exact hdraft.others q hq
    · exact hp

namespace Ledger

/-- A ledger agrees with a host whose first saved states were those of `r`. -/
structure Agrees (r : Repository) (h : Host) (l : Ledger) : Prop where
  /-- The saved states are the mutations of the saves, replayed in the order of the saves. -/
  committed : ∀ workspace,
    h.repository.committed workspace = (r.committed workspace).published workspace l.saves
  /-- The staged copies are the mutations since they were taken, replayed. -/
  staged : ∀ number, (h.session number).staged = (l.drafts number).map Draft.content
  /-- The copies were taken from the saved states of their time. -/
  rooted : ∀ number draft, l.drafts number = some draft →
    draft.Rooted r (h.session number).workspace number l.saves

/-- A ledger tells the state of a host, which of its saves are refused, and what its sessions
read. -/
structure Faithful (r : Repository) (h : Host) (l : Ledger) : Prop extends Agrees r h l where
  /-- A save of an open session is refused exactly if there are staged changes and another session
  has saved to the workspace since the copy was taken. -/
  refused_iff : ∀ number, (h.session number).live = true →
    (h.accepts (.save number) = false ↔
      ∃ draft, l.drafts number = some draft ∧
        ∃ p ∈ l.saves.drop draft.since,
          p.workspace = (h.session number).workspace ∧ p.number ≠ number)
  /-- A save that is refused changes nothing. -/
  refused : ∀ number, h.accepts (.save number) = false → h.after (.save number) = h
  /-- A session with staged changes reads nothing but them and the registries. -/
  reads : ∀ number draft, l.drafts number = some draft →
    (h.session number).reader h.repository =
      Session.reader { h.repository with workspaces := ∅ }
        { h.session number with staged := some draft.content }

variable {r : Repository} {h h' : Host} {l : Ledger} {number : Nat}

@[simp] theorem saves_withDraft (l : Ledger) (number : Nat) (draft? : Option Draft) :
    (l.withDraft number draft?).saves = l.saves := rfl

theorem drafts_withDraft (l : Ledger) (number k : Nat) (draft? : Option Draft) :
    (l.withDraft number draft?).drafts k = if k = number then draft? else l.drafts k := rfl

theorem agrees_blank (r : Repository) : Agrees r ⟨r, []⟩ .blank where
  committed _ := rfl
  staged _ := rfl
  rooted _ _ hdraft := nomatch hdraft

namespace Agrees

/-- The copy of a session is what its draft describes. -/
theorem staged_eq (hl : Agrees r h l) {draft : Draft} (hdraft : l.drafts number = some draft) :
    (h.session number).staged = some draft.content := by
  rw [hl.staged, hdraft, Option.map_some]

/-! ### One call -/

/-- A call that changes the staged copy of one session changes one draft. -/
theorem update (hl : Agrees r h l) {draft? : Option Draft}
    (hrepository : h'.repository = h.repository)
    (hothers : ∀ k, k ≠ number → h'.session k = h.session k)
    (hstaged : (h'.session number).staged = draft?.map Draft.content)
    (hrooted : ∀ draft, draft? = some draft →
      draft.Rooted r (h'.session number).workspace number l.saves) :
    Agrees r h' (l.withDraft number draft?) where
  committed workspace := by rw [hrepository, hl.committed, saves_withDraft]
  staged k := by
    rw [drafts_withDraft]
    by_cases hk : k = number
    · rw [if_pos hk, hk, hstaged]
    · rw [if_neg hk, hothers k hk, hl.staged]
  rooted k draft hdraft := by
    rw [drafts_withDraft] at hdraft
    by_cases hk : k = number
    · rw [if_pos hk] at hdraft
      subst hk
      exact hrooted draft hdraft
    · rw [if_neg hk] at hdraft
      rw [hothers k hk]
      exact hl.rooted k draft hdraft

/-- A call that keeps the staged copies, and the workspaces of the sessions that hold one, is of no
interest to the observer. -/
theorem keep (hl : Agrees r h l) (hrepository : h'.repository = h.repository)
    (hstaged : ∀ k, (h'.session k).staged = (h.session k).staged)
    (hworkspace : ∀ k, (h.session k).staged ≠ none →
      (h'.session k).workspace = (h.session k).workspace) : Agrees r h' l where
  committed workspace := by rw [hrepository, hl.committed]
  staged k := by rw [hstaged, hl.staged]
  rooted k draft hdraft := by
    rw [hworkspace k (by simp [hl.staged, hdraft])]
    exact hl.rooted k draft hdraft

theorem note_opening (hl : Agrees r h l) (workspace : String) :
    Agrees r (h.after (.opening workspace)) (l.note h (.opening workspace)) := by
  have hsession (k : Nat) := h.session_after_opening k workspace
  refine hl.keep (h.repository_after_opening workspace) (fun k => ?_) fun k hstaged => ?_
  · obtain heq | ⟨hle, hopened⟩ := hsession k
    · rw [heq]
    · rw [hopened, h.session_of_length_le k hle]
      rfl
  · obtain heq | ⟨hle, -⟩ := hsession k
    · rw [heq]
    · rw [h.session_of_length_le k hle] at hstaged
      exact absurd rfl hstaged

theorem note_close (hl : Agrees r h l) (number : Nat) :
    Agrees r (h.after (.close number)) (l.note h (.close number)) := by
  refine hl.keep (by rw [h.after_close]; rfl) (fun k => ?_) fun k _ => ?_
  all_goals
    rw [h.session_after_close]
    split
    · subst k
      rfl
    · rfl

theorem note_refresh (hl : Agrees r h l) (number : Nat) (keep : Bool) :
    Agrees r (h.after (.refresh number keep)) (l.note h (.refresh number keep)) := by
  rw [note, h.accepts_refresh]
  by_cases hdrop : (h.session number).live = true ∧ keep = false
  · rw [if_pos hdrop]
    refine hl.update (by rw [h.after_refresh]; rfl) (fun k hk => ?_) ?_ (by simp)
    · rw [h.session_after_refresh, if_neg fun hall => hk hall.1]
    · rw [h.session_after_refresh, if_pos ⟨rfl, hdrop⟩]
      rfl
  · rw [if_neg hdrop]
    have hsession (k : Nat) : (h.after (.refresh number keep)).session k = h.session k := by
      rw [h.session_after_refresh, if_neg fun hall => hdrop hall.2]
    exact hl.keep (by rw [h.after_refresh]; rfl) (fun k => by rw [hsession])
      fun k _ => by rw [hsession]

/-- The draft that a mutation goes into. -/
theorem rooted_draft (hl : Agrees r h l) (number : Nat) :
    ((l.drafts number).getD ⟨h.committedFor number, l.saves.length, []⟩).Rooted r
      (h.session number).workspace number l.saves := by
  cases hdraft : l.drafts number with
  | some draft => exact hl.rooted number draft hdraft
  | none =>
      refine ⟨Nat.le_refl _, ?_, ?_⟩
      · rw [Option.getD_none, List.take_length]
        exact hl.committed _
      · rw [Option.getD_none, List.drop_length]
        exact fun _ hp => nomatch hp

theorem content_draft (hl : Agrees r h l) (number : Nat) :
    ((l.drafts number).getD ⟨h.committedFor number, l.saves.length, []⟩).content =
      (h.session number).current (h.committedFor number) := by
  rw [Session.current, hl.staged]
  cases l.drafts number <;> rfl

theorem note_mutate (hl : Agrees r h l) (number : Nat) (d : Draws) (m : Mutation) :
    Agrees r (h.after (.mutate number d m)) (l.note h (.mutate number d m)) := by
  have hrepository : (h.after (.mutate number d m)).repository = h.repository := by
    rw [h.after_mutate]
    rfl
  have hothers (k : Nat) (hk : k ≠ number) :
      (h.after (.mutate number d m)).session k = h.session k := by
    rw [h.session_after_mutate, if_neg hk]
  have hself : (h.after (.mutate number d m)).session number =
      leftBy (m.run (h.committedFor number) d) (h.session number) := by
    rw [h.session_after_mutate, if_pos rfl]
  by_cases hwrites : (h.session number).live = true ∧
      ¬((h.session number).staged = none ∧ m.orphan? ≠ none)
  · obtain ⟨hlive, hwrites⟩ := hwrites
    have hstaged := Mutation.staged_leftBy_run (h.committedFor number) d m hlive
    rw [if_neg hwrites] at hstaged
    simp only [note, hself, Mutation.live_leftBy_run, hlive, hstaged, Option.isSome_some,
      and_self, if_true]
    refine hl.update hrepository hothers ?_ ?_
    · rw [hself, hstaged, Option.map_some, Draft.content, Workspace.replay_concat,
        ← hl.content_draft]
      rfl
    · rintro draft hdraft
      obtain rfl := Option.some.inj hdraft
      rw [hself, Mutation.workspace_leftBy_run]
      obtain ⟨hsince, hbase, hsaves⟩ := hl.rooted_draft number
      exact ⟨hsince, hbase, hsaves⟩
  · -- The session is closed, or the mutation is refused before it takes a copy.
    have hsame : (h.after (.mutate number d m)).session number = h.session number := by
      rw [hself, Mutation.leftBy_run, if_neg]
      rintro ⟨hlive, horphan⟩
      exact hwrites ⟨hlive, fun hall => hall.2 horphan⟩
    have hnot : ¬((h.session number).live = true ∧ (h.session number).staged.isSome = true) := by
      rintro ⟨hlive, hstaged⟩
      refine hwrites ⟨hlive, fun hall => ?_⟩
      rw [hall.1] at hstaged
      exact absurd hstaged (by decide)
    have hsession (k : Nat) : (h.after (.mutate number d m)).session k = h.session k := by
      by_cases hk : k = number
      · rw [hk, hsame]
      · exact hothers k hk
    simp only [note, hsame, if_neg hnot]
    exact hl.keep hrepository (fun k => by rw [hsession]) fun k _ => by rw [hsession]

/-- If the version of a staged copy is that of the saved state, then the copy was taken from the
saved state. -/
theorem base_eq (hl : Agrees r h l) {draft : Draft} (hdraft : l.drafts number = some draft)
    (hversion : (h.committedFor number).version = draft.content.version) :
    draft.base = h.committedFor number := by
  have hrooted := hl.rooted number draft hdraft
  have hcommitted : h.committedFor number =
      (r.committed (h.session number).workspace).published (h.session number).workspace l.saves :=
    hl.committed _
  rw [Draft.content, Workspace.version_replay, hrooted.base, hcommitted,
    Workspace.version_published_take] at hversion
  rw [hrooted.base, hcommitted]
  conv_rhs => rw [← List.take_append_drop draft.since l.saves, Workspace.published_append]
  exact (Workspace.published_of_notMem _ _ _ hversion).symm

theorem note_save (hl : Agrees r h l) (number : Nat) :
    Agrees r (h.after (.save number)) (l.note h (.save number)) := by
  rw [note]
  cases hdraft : l.drafts number with
  | none =>
      have hstaged : (h.session number).staged = none := by rw [hl.staged, hdraft, Option.map_none]
      rw [h.after_save_of_not number (Or.inr hstaged)]
      exact hl
  | some draft =>
      cases haccepts : h.accepts (.save number) with
      | false =>
          rw [h.after_save_of_not number (Or.inl haccepts)]
          exact hl
      | true =>
          have hstaged := hl.staged_eq hdraft
          have hbase := hl.base_eq hdraft
            (((h.accepts_save number).1 haccepts).2 draft.content hstaged)
          simp only [if_true]
          refine ⟨fun workspace => ?_, fun k => ?_, fun k other hother => ?_⟩
          · rw [h.committed_after_save number hstaged haccepts, hl.committed,
              Workspace.published_concat, Publication.publish]
            by_cases hworkspace : workspace = (h.session number).workspace
            · subst hworkspace
              rw [if_pos rfl, if_pos rfl, Draft.content, hbase, ← hl.committed]
              rfl
            · rw [if_neg hworkspace, if_neg (Ne.symm hworkspace)]
          · rw [h.session_after_save number k hstaged haccepts, drafts_withDraft]
            by_cases hk : k = number
            · rw [if_pos hk, if_pos hk, Option.map_none]
            · rw [if_neg hk, if_neg hk, hl.staged]
          · rw [drafts_withDraft] at hother
            by_cases hk : k = number
            · rw [if_pos hk] at hother
              exact nomatch hother
            · rw [if_neg hk] at hother
              rw [h.session_after_save number k hstaged haccepts, if_neg hk]
              exact (hl.rooted k other hother).concat _ (Ne.symm hk)

/-- The invariant is kept by every call. -/
theorem note (hl : Agrees r h l) (c : Host.Call) : Agrees r (h.after c) (l.note h c) := by
  cases c with
  | opening workspace => exact hl.note_opening workspace
  | mutate number d m => exact hl.note_mutate number d m
  | save number => exact hl.note_save number
  | refresh number keep => exact hl.note_refresh number keep
  | close number => exact hl.note_close number

/-! ### What follows from agreement -/

theorem refused_iff (hl : Agrees r h l) (hlive : (h.session number).live = true) :
    h.accepts (.save number) = false ↔
      ∃ draft, l.drafts number = some draft ∧
        ∃ p ∈ l.saves.drop draft.since,
          p.workspace = (h.session number).workspace ∧ p.number ≠ number := by
  rw [← Bool.not_eq_true, h.accepts_save, hl.staged]
  cases hdraft : l.drafts number with
  | none => simp [hlive]
  | some draft =>
      have hrooted := hl.rooted number draft hdraft
      have hversion : (h.committedFor number).version = draft.content.version ↔
          ∀ p ∈ l.saves.drop draft.since, p.workspace ≠ (h.session number).workspace := by
        rw [Draft.content, Workspace.version_replay, hrooted.base,
          ← Workspace.version_published_take, Host.committedFor, hl.committed]
      simp only [hlive, true_and, Option.map_some, Option.some.injEq, forall_eq', exists_eq_left',
        hversion]
      constructor
      · intro hnot
        push Not at hnot
        obtain ⟨p, hp, hworkspace⟩ := hnot
        exact ⟨p, hp, hworkspace, hrooted.others p hp⟩
      · rintro ⟨p, hp, hworkspace, -⟩ hall
        exact hall p hp hworkspace

theorem reads (hl : Agrees r h l) {draft : Draft} (hdraft : l.drafts number = some draft) :
    (h.session number).reader h.repository =
      Session.reader { h.repository with workspaces := ∅ }
        { h.session number with staged := some draft.content } := by
  have hstaged := hl.staged_eq hdraft
  have hsession : { h.session number with staged := some draft.content } = h.session number := by
    rw [← hstaged]
  rw [hsession, Session.reader, Session.reader]
  simp only [Session.current, hstaged, Option.getD_some]

theorem faithful (hl : Agrees r h l) : Faithful r h l where
  toAgrees := hl
  refused_iff _ hlive := hl.refused_iff hlive
  refused number hrefused := h.after_save_of_not number (Or.inl hrefused)
  reads _ _ hdraft := hl.reads hdraft

end Agrees

end Ledger

/-- **No update is lost.**  The ledger of a run tells the state of the host after the run. -/
theorem Host.faithful_ledger (r : Repository) (calls : List Host.Call) :
    Ledger.Faithful r (Host.run ⟨r, []⟩ calls) (Host.ledger ⟨r, []⟩ calls) := by
  refine Ledger.Agrees.faithful ?_
  induction calls using List.reverseRecOn with
  | nil => exact Ledger.agrees_blank r
  | append_singleton calls c ih =>
      rw [run_concat, ledger_concat]
      exact ih.note c

/-- Of two sessions that both add a node to the same saved state, the one that saves last is
refused, and it is once it has dropped its copy that it may save again. -/
example :
    let d : Draws := ⟨toString, ⟨0, 0⟩⟩
    let calls : List Host.Call :=
      [.opening "default", .opening "default", .mutate 0 d (.createContainer "/a"),
        .mutate 1 d (.createContainer "/b"), .save 0]
    let h := (Host.start "root").run calls
    h.accepts (.save 1) = false ∧ (h.after (.refresh 1 false)).accepts (.save 1) = true := by
  decide +kernel

end LinkedStore
