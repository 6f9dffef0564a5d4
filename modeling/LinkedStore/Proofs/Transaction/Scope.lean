import LinkedStore.Proofs.Host.Integrity
import LinkedStore.Proofs.Host.Ledger
import LinkedStore.Proofs.Transaction.Run
import Mathlib.Data.List.DropRight

/-!
# The scope of a transaction

Code within a transaction has a scoped way to its session.  Through the scope it reads, and it may
call for a save, a refresh or the end of the session as for any other one.  Saving and closing do
nothing there, and neither does a refresh that keeps changes, so that such calls may be left out
of what is done within the transaction: nothing is saved early and the session is not released.

A refresh that drops changes is passed on, however, although dropping changes is the better part
of a rollback.  A commit publishes what the session has done since the last such call, on the
saved state; only if there was none, it publishes all that the session has done.

## Main definitions

* `Transaction.Use` : what is done while a transaction is open.
* `Transaction.used` : the host after a transaction has been used.
* `Transaction.pending`, `Transaction.origin` : the mutations that count, and what they start from.
* `TransactionHost.Delivers` : what a commit makes of a transaction that has been used.

## Main statements

* `Transaction.leftBy_perform_of_isIdle` : which calls through the scope do nothing.
* `Transaction.Stands.perform` : the invariant is kept by every use.
* `TransactionHost.delivers_of_uses` : what a commit publishes.
-/

namespace LinkedStore

namespace Access

/-- A refresh that keeps changes does nothing, whatever way it takes to the session. -/
theorem leftBy_refresh_true (a : Access) (h : Host) : leftBy (a.refresh true) h = h := by
  induction a with
  | direct number => exact h.after_refresh_true number
  | within id inner ih => exact ih
  | faulty plan inner ih =>
      rw [refresh]
      split
      · rfl
      · exact ih

end Access

namespace Transaction

variable {t : Transaction} {number : Nat} {h h' : Host} {uses : List Use}

/-! ### Uses -/

/-- What is done while a transaction is open: calls through its scope, mutations of the session
beneath, and calls on other sessions. -/
inductive Use where
  /-- A reading call through the scope. -/
  | ask (question : Reader → Except Error Unit)
  | save
  | refresh (keep : Bool)
  | close
  | mutate (d : Draws) (m : Mutation)
  | elsewhere (c : Host.Call)

namespace Use

/-- The program of a use. -/
def perform (t : Transaction) : Use → HostM Unit
  | ask question => fun h =>
      match question (t.session.reader h) with
      | .ok () => .ok () h
      | .error e => .error e h
  | save => t.session.save
  | refresh keep => t.session.refresh keep
  | close => t.session.close
  | mutate d m => (fun _ => ()) <$> t.underlying.mutate d m
  | elsewhere c => c.perform

/-- The calls through the scope that drop nothing. -/
def isIdle : Use → Bool
  | ask _ | save | close | refresh true => true
  | _ => false

/-- The call through the scope that drops what the session has staged. -/
def drops : Use → Bool
  | refresh false => true
  | _ => false

/-- The mutation of the session of the transaction, with what is drawn for it. -/
def mutation? : Use → Option (Draws × Mutation)
  | mutate d m => some (d, m)
  | _ => none

/-- Whether something is done elsewhere to the session of the transaction, or saved. -/
def disturbs (number : Nat) : Use → Bool
  | elsewhere (.save _) => true
  | elsewhere c => c.number? == some number
  | _ => false

end Use

/-- The host after a transaction has been used. -/
def used (t : Transaction) (h : Host) (uses : List Use) : Host :=
  uses.foldl (fun h u => leftBy (u.perform t) h) h

theorem used_concat (t : Transaction) (h : Host) (uses : List Use) (u : Use) :
    t.used h (uses ++ [u]) = leftBy (u.perform t) (t.used h uses) := by
  rw [used, used, List.foldl_append, List.foldl_cons, List.foldl_nil]

/-- The mutations since changes were dropped for the last time. -/
def pending (uses : List Use) : List (Draws × Mutation) :=
  (uses.rtakeWhile fun u => !u.drops).filterMap Use.mutation?

/-- The state that these mutations start from: the saved one if changes were dropped, and else the
one that the session worked on at the start. -/
def origin (h : Host) (number : Nat) (uses : List Use) : Workspace :=
  if uses.any Use.drops then h.committedFor number else h.current number

/-! ### Calls that do nothing -/

/-- **A call through the scope that drops nothing does nothing**, whatever the transaction is
over. -/
theorem leftBy_perform_of_isIdle {u : Use} (hu : u.isIdle = true) (t : Transaction) (h : Host) :
    leftBy (u.perform t) h = h := by
  cases u with
  | ask question =>
      simp only [leftBy, EStateM.run, Use.perform]
      cases question (t.session.reader h) <;> rfl
  | save => rfl
  | close => rfl
  | refresh keep =>
      cases keep with
      | false => cases hu
      | true => exact t.underlying.leftBy_refresh_true h
  | mutate d m => cases hu
  | elsewhere c => cases hu

/-- So such calls can be left out. -/
theorem used_filter (t : Transaction) (h : Host) (uses : List Use) :
    t.used h uses = t.used h (uses.filter fun u => !u.isIdle) := by
  induction uses using List.reverseRecOn with
  | nil => rfl
  | append_singleton uses u ih =>
      rw [used_concat, ih, List.filter_append, List.filter_singleton]
      cases hu : u.isIdle with
      | true =>
          rw [leftBy_perform_of_isIdle hu]
          exact congrArg _ (List.append_nil _).symm
      | false => exact (used_concat ..).symm

/-! ### What the other uses do -/

/-- A use that is no idle call is a call on the sessions of the host. -/
theorem leftBy_perform_mutate (ht : t.underlying = .direct number) (h : Host) (d : Draws)
    (m : Mutation) : leftBy ((Use.mutate d m).perform t) h = h.after (.mutate number d m) := by
  rw [Use.perform, ht]
  rfl

theorem leftBy_perform_refresh (ht : t.underlying = .direct number) (h : Host) (keep : Bool) :
    leftBy ((Use.refresh keep).perform t) h = h.after (.refresh number keep) := by
  rw [Use.perform, session, ht]
  rfl

/-- A host at which nothing has happened since another one, but that an open session works on a
given state. -/
structure Stands (h h' : Host) (number : Nat) (content : Workspace) : Prop where
  live : (h'.session number).live = true
  workspace : (h'.session number).workspace = (h.session number).workspace
  repository : h'.repository = h.repository
  current : h'.current number = content
  version : content.version = (h.committedFor number).version

namespace Stands

variable {content : Workspace}

theorem committedFor (hs : Stands h h' number content) :
    h'.committedFor number = h.committedFor number := by
  rw [Host.committedFor, hs.workspace, hs.repository, Host.committedFor]

/-- A session that can be saved stands. -/
theorem of_accepts (hopen : h.accepts (.save number) = true) :
    Stands h h number (h.current number) := by
  obtain ⟨hlive, hversion⟩ := (h.accepts_save number).1 hopen
  refine ⟨hlive, rfl, rfl, rfl, ?_⟩
  rw [Host.current, Session.current]
  cases hstaged : (h.session number).staged with
  | none => rfl
  | some w => exact (hversion w hstaged).symm

theorem lt_length (hs : Stands h h' number content) : number < h'.sessions.length :=
  h'.lt_length_of_live number hs.live

/-- What is kept by a call that saves nothing and leaves the session alone. -/
theorem of_session_eq {h'' : Host} (hs : Stands h h' number content)
    (hsession : h''.session number = h'.session number)
    (hrepository : h''.repository = h'.repository) : Stands h h'' number content where
  live := by rw [hsession, hs.live]
  workspace := by rw [hsession, hs.workspace]
  repository := hrepository.trans hs.repository
  current := by
    rw [Host.current, Host.committedFor, hsession, hrepository]
    exact hs.current
  version := hs.version

theorem mutate (hs : Stands h h' number content) (d : Draws) (m : Mutation) :
    Stands h (h'.after (.mutate number d m)) number (content.applied (d, m)) where
  live := by rw [Host.session_after_mutate, if_pos rfl, Mutation.live_leftBy_run, hs.live]
  workspace := by
    rw [Host.session_after_mutate, if_pos rfl, Mutation.workspace_leftBy_run, hs.workspace]
  repository := by rw [Host.after_mutate, Host.repository_withSession, hs.repository]
  current := by
    rw [Host.current_after_mutate_eq, hs.live, hs.current]
    by_cases horphan : m.orphan? = none
    · rw [if_pos ⟨rfl, horphan⟩, Workspace.applied_eq]
    · rw [if_neg fun hall => horphan hall.2, Workspace.applied_of_orphan _ _ horphan]
  version := by rw [Workspace.version_applied, hs.version]

/-- Once changes are dropped, the session works on the saved state. -/
theorem drop (hs : Stands h h' number content) :
    Stands h (h'.after (.refresh number false)) number (h.committedFor number) := by
  have hsession : (h'.after (.refresh number false)).session number =
      { h'.session number with staged := none } := by
    rw [Host.session_after_refresh, if_pos ⟨rfl, hs.live, rfl⟩]
  have hrepository : (h'.after (.refresh number false)).repository = h'.repository := by
    rw [Host.after_refresh, Host.repository_withSession]
  refine ⟨?_, ?_, hrepository.trans hs.repository, ?_, rfl⟩
  · rw [hsession]
    exact hs.live
  · rw [hsession]
    exact hs.workspace
  · rw [Host.current, Host.committedFor, hsession, hrepository]
    exact hs.committedFor

theorem elsewhere (hs : Stands h h' number content) {c : Host.Call}
    (hc : (Use.elsewhere c).disturbs number = false) : Stands h (h'.after c) number content := by
  have hnumber : c.number? ≠ some number ∧ ∀ k, c ≠ .save k := by
    cases c with
    | save k => cases hc
    | _ => exact ⟨by simpa [Use.disturbs] using hc, by simp⟩
  refine hs.of_session_eq (Host.session_after_of_ne hs.lt_length hnumber.1) ?_
  cases c with
  | opening opened => exact h'.repository_after_opening opened
  | mutate k d m => rw [Host.after_mutate, Host.repository_withSession]
  | save k => exact absurd rfl (hnumber.2 k)
  | refresh k keep => rw [Host.after_refresh, Host.repository_withSession]
  | close k => rw [Host.after_close, Host.repository_withSession]

/-- What is published by saving the session of a host that stands. -/
theorem committed_after_save (hs : Stands h h' number content)
    (haccepts : h'.accepts (.save number) = true) (workspace : String) :
    (h'.after (.save number)).repository.committed workspace =
      if workspace = (h.session number).workspace then
        { content with
          version := (h.committedFor number).version + (h'.session number).staged.isSome.toNat }
      else h.repository.committed workspace := by
  have hcurrent := hs.current
  rw [Host.current, Session.current] at hcurrent
  cases hstaged : (h'.session number).staged with
  | none =>
      rw [hstaged, Option.getD_none, hs.committedFor] at hcurrent
      rw [Host.after_save_of_not _ _ (.inr hstaged), hs.repository]
      by_cases hworkspace : workspace = (h.session number).workspace
      · rw [if_pos hworkspace, hworkspace, ← hcurrent]
        rfl
      · rw [if_neg hworkspace]
  | some w =>
      rw [hstaged, Option.getD_some] at hcurrent
      rw [Host.committed_after_save _ _ hstaged haccepts, hs.workspace, hs.repository, hcurrent,
        hs.version]
      rfl

/-- The state that a session works on after a use. -/
def worked (committed content : Workspace) : Use → Workspace
  | .mutate d m => content.applied (d, m)
  | .refresh false => committed
  | _ => content

/-- **The invariant is kept by every use** that does not disturb the session. -/
theorem perform (ht : t.underlying = .direct number) (hs : Stands h h' number content) {u : Use}
    (hu : u.disturbs number = false) :
    Stands h (leftBy (u.perform t) h') number (worked (h.committedFor number) content u) := by
  cases hidle : u.isIdle with
  | true =>
      rw [leftBy_perform_of_isIdle hidle]
      cases u with
      | refresh keep =>
          cases keep with
          | false => cases hidle
          | true => exact hs
      | mutate d m => cases hidle
      | _ => exact hs
  | false =>
      cases u with
      | mutate d m =>
          rw [leftBy_perform_mutate ht]
          exact hs.mutate d m
      | refresh keep =>
          cases keep with
          | true => cases hidle
          | false =>
              rw [leftBy_perform_refresh ht]
              exact hs.drop
      | elsewhere c => exact hs.elsewhere hu
      | _ => cases hidle

end Stands

/-! ### Runs of uses -/

theorem pending_concat (uses : List Use) (u : Use) :
    pending (uses ++ [u]) = if u.drops then [] else pending uses ++ u.mutation?.toList := by
  rw [pending, pending]
  cases hu : u.drops with
  | true => rw [List.rtakeWhile_concat_neg _ _ _ (by simp [hu])]; rfl
  | false =>
      rw [List.rtakeWhile_concat_pos _ _ _ (by simp [hu]), List.filterMap_append]
      cases hmutation : u.mutation? <;> simp [hmutation]

/-- Without a drop all mutations count. -/
theorem pending_of_not_drops (huses : uses.any Use.drops = false) :
    pending uses = uses.filterMap Use.mutation? := by
  rw [pending, List.rtakeWhile_eq_self_iff.2]
  intro u hu
  simpa using List.any_eq_false.1 huses u hu

theorem origin_concat (h : Host) (number : Nat) (uses : List Use) (u : Use) :
    origin h number (uses ++ [u]) =
      if u.drops then h.committedFor number else origin h number uses := by
  rw [origin, origin, List.any_append, List.any_cons, List.any_nil, Bool.or_false]
  cases u.drops with
  | true => rw [Bool.or_true, if_pos rfl, if_pos rfl]
  | false => rw [Bool.or_false, if_neg Bool.false_ne_true]

/-- **What a session works on after a run of uses**: the mutations that count, replayed on what they
start from. -/
theorem stands_used (ht : t.underlying = .direct number)
    (hopen : h.accepts (.save number) = true) (huses : ∀ u ∈ uses, u.disturbs number = false) :
    Stands h (t.used h uses) number ((origin h number uses).replay (pending uses)) := by
  induction uses using List.reverseRecOn with
  | nil => exact .of_accepts hopen
  | append_singleton uses u ih =>
      have hbefore := ih fun other hother => huses other (List.mem_append_left _ hother)
      have hafter := hbefore.perform ht (huses u List.mem_concat_self)
      rw [used_concat, origin_concat, pending_concat]
      cases u with
      | mutate d m =>
          rw [Stands.worked, ← Workspace.replay_concat] at hafter
          exact hafter
      | refresh keep =>
          cases keep with
          | false => exact hafter
          | true => exact (List.append_nil (pending uses)).symm ▸ hafter
      | _ => exact (List.append_nil (pending uses)).symm ▸ hafter

end Transaction

namespace TransactionHost

open Transaction (Use)

variable {s : TransactionHost} {t : Transaction} {number : Nat} {uses : List Use}

/-- The host and its transactions after one of them has been used. -/
def afterUses (s : TransactionHost) (t : Transaction) (uses : List Use) : TransactionHost :=
  { s with host := t.used s.host uses }

/-- What a commit makes of a transaction that has been used. -/
structure Delivers (s : TransactionHost) (t : Transaction) (number : Nat) (uses : List Use) :
    Prop where
  /-- The calls through the scope that drop nothing could have been left out. -/
  idle : s.afterUses t uses = s.afterUses t (uses.filter fun u => !u.isIdle)
  /-- Until the commit, nothing is saved, the session is open and the transaction is running. -/
  unsaved : (s.afterUses t uses).host.repository = s.host.repository
  live : ((s.afterUses t uses).host.session number).live = true
  running : (s.afterUses t uses).running? t.id = some t
  /-- The commit is accepted. -/
  accepted : ∀ now, (s.afterUses t uses).refusal? ⟨now, .commit t.id⟩ = none
  /-- It publishes the mutations that count, replayed on what they start from; this is the next
  version, if there is a copy to save. -/
  published : ∀ now workspace,
    ((s.afterUses t uses).after ⟨now, .commit t.id⟩).host.repository.committed workspace =
      if workspace = (s.host.session number).workspace then
        { (Transaction.origin s.host number uses).replay (Transaction.pending uses) with
          version := (s.host.committedFor number).version +
            ((s.afterUses t uses).host.session number).staged.isSome.toNat }
      else s.host.repository.committed workspace
  /-- Unless changes have been dropped, these are all mutations since the start, on the state that
  the session worked on then. -/
  whole : uses.any Use.drops = false →
    Transaction.pending uses = uses.filterMap Use.mutation? ∧
      Transaction.origin s.host number uses = s.host.current number

/-- **A commit publishes what has been done since changes were dropped**, whatever else is called
through the scope of the transaction, if the session could be saved at the start and nothing is
saved elsewhere meanwhile. -/
theorem delivers_of_uses (ht : s.running? t.id = some t) (hnumber : t.underlying = .direct number)
    (hopen : s.host.accepts (.save number) = true)
    (huses : ∀ u ∈ uses, u.disturbs number = false) : s.Delivers t number uses := by
  have hstands := Transaction.stands_used hnumber hopen huses
  have hrunning : (s.afterUses t uses).running? t.id = some t := ht
  have hcurrent := hstands.current
  rw [Host.current, hstands.committedFor] at hcurrent
  have haccepts : (s.afterUses t uses).host.accepts (.save number) = true := by
    refine (Host.accepts_save _ number).2 ⟨hstands.live, fun w hw => ?_⟩
    have hversion := hstands.version
    have hstaged : ((t.used s.host uses).session number).staged = some w := hw
    rw [← hcurrent, Session.current, hstaged, Option.getD_some, ← hstands.committedFor] at hversion
    exact hversion.symm
  refine ⟨congrArg (fun h => { s with host := h }) (Transaction.used_filter t s.host uses),
    hstands.repository, hstands.live, hrunning,
    fun now => (refusal?_commit_eq_none_iff hrunning hnumber now).2 haccepts,
    fun now workspace => ?_, fun hdrops => ⟨Transaction.pending_of_not_drops hdrops, ?_⟩⟩
  · rw [after_commit_of_running hrunning hnumber, if_pos haccepts]
    show (((s.afterUses t uses).host.after (.save number)).after
      (.close number)).repository.committed workspace = _
    rw [Host.after_close, Host.repository_withSession]
    exact hstands.committed_after_save haccepts workspace
  · rw [Transaction.origin, hdrops, if_neg Bool.false_ne_true]

/-- A transaction that has begun over a new session. -/
def begun : TransactionHost :=
  (start (.start "root") 60).run
    [⟨.epoch, .session (.opening "default")⟩, ⟨.epoch, .start "tx" 0⟩]

/-- A container is created within the transaction, in vain, and then another one. -/
def wavering : List Use :=
  [.mutate ⟨toString, .epoch⟩ (.createContainer "/a"), .save, .refresh true, .close,
    .ask fun reader => (fun _ => ()) <$> reader.node "/a", .refresh false,
    .elsewhere (.opening "default"), .mutate ⟨toString, .epoch⟩ (.createContainer "/b"), .save]

/-- Only the second container is published. -/
theorem delivers_of_uses_wavering :
    let t : Transaction := ⟨"tx", .direct 0, ⟨60, 0⟩⟩
    begun.running? t.id = some t ∧ begun.host.accepts (.save 0) = true ∧
      (∀ u ∈ wavering, u.disturbs 0 = false) ∧ begun.Delivers t 0 wavering ∧
      Transaction.pending wavering = [(⟨toString, .epoch⟩, .createContainer "/b")] := by
  intro t
  have ht : begun.running? t.id = some t := by decide +kernel
  have hopen : begun.host.accepts (.save 0) = true := by decide +kernel
  have huses : ∀ u ∈ wavering, u.disturbs 0 = false := by decide +kernel
  exact ⟨ht, hopen, huses, delivers_of_uses ht rfl hopen huses, rfl⟩

/-- So a commit need not publish all that has been done within the transaction. -/
theorem not_published_of_drops :
    ¬∀ uses : List Use, (∀ u ∈ uses, u.disturbs 0 = false) → ∀ path,
      (((begun.afterUses ⟨"tx", .direct 0, ⟨60, 0⟩⟩ uses).after
        ⟨.epoch, .commit "tx"⟩).host.repository.committed "default").node? path =
          ((begun.host.current 0).replay (uses.filterMap Use.mutation?)).node? path := by
  intro hall
  have hnode := hall
    [.mutate ⟨toString, .epoch⟩ (.createContainer "/a"), .refresh false] (by decide) "/a"
  exact absurd hnode (by decide +kernel)

end TransactionHost

end LinkedStore
