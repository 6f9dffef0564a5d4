import LinkedStore.Proofs.Host.Ledger
import LinkedStore.Proofs.Transaction.Run

/-!
# What transactions publish

A transaction publishes all that its session has done, or nothing.  Only a commit that is accepted
changes a saved state.  It finds the saved state that the copy of the session was taken from, and
replaces it by that state with all mutations of the session replayed on it.  From then on the
identifier of the transaction is not found.

The sessions of transactions have to be left to their transactions: nobody else saves, refreshes or
closes them.  Then the copy of an open session is the state that it was taken from with all
mutations of the session replayed, which is the invariant of the run.

## Main definitions

* `TransactionHost.mutations` : the mutations of a session in a run.
* `TransactionHost.Owned` : sessions of transactions are left to their transactions.
* `TransactionHost.BasedOn` : the saved state that the copy of a session was taken from.
* `TransactionHost.Publishes` : an event publishes what a session has done.
* `TransactionHost.Atomic` : what an event after a run saves, and which transactions it finds.

## Main statements

* `TransactionHost.Staging.concat` : the invariant is kept by every event.
* `TransactionHost.atomic_of_orderly` : what each event of a run saves.
-/

namespace LinkedStore.TransactionHost

variable {s : TransactionHost} {e : Event} {t : Transaction} {id : String} {number : Nat}
  {events : List Event} {base : Workspace}

/-! ### What is told of a run -/

/-- The mutation of a session that a call makes, with what is drawn for it. -/
def Call.mutation? (number : Nat) : Call → Option (Draws × Mutation)
  | .session (.mutate k d m) => if k = number then some (d, m) else none
  | _ => none

/-- The mutations of a session in a run, with what is drawn for them. -/
def mutations (number : Nat) (events : List Event) : List (Draws × Mutation) :=
  events.filterMap fun e => e.call.mutation? number

/-- The session that a call saves, refreshes or closes without a transaction. -/
def Call.settled? : Call → Option Nat
  | .session (.save number) | .session (.refresh number _) | .session (.close number) => some number
  | _ => none

/-- The session that a call starts a transaction over. -/
def Call.over? : Call → Option Nat
  | .start _ number => some number
  | _ => none

/-- The sessions of transactions are left to their transactions. -/
def Owned (events : List Event) : Prop :=
  ∀ e ∈ events, ∀ number ∈ e.call.over?, ∀ other ∈ events, other.call.settled? ≠ some number

instance (events : List Event) : Decidable (Owned events) :=
  inferInstanceAs (Decidable (∀ e ∈ events, ∀ number ∈ e.call.over?, ∀ other ∈ events,
    other.call.settled? ≠ some number))

/-- The copy that a session holds after a run was taken from a saved state of its workspace: from
the one there was when the session held no copy for the last time. -/
def BasedOn (s : TransactionHost) (events : List Event) (number : Nat) (base : Workspace) : Prop :=
  ∃ done rest, events = done ++ rest ∧ ((s.run done).host.session number).staged = none ∧
    (∀ more, more <+: rest → more ≠ [] →
      ((s.run (done ++ more)).host.session number).staged ≠ none) ∧
    base = (s.run done).host.repository.committed
      ((s.run events).host.session number).workspace

/-- An identifier is that of a transaction which an event of a run has ended: a commit, a rollback,
a sweep that found it expired, or a look-up that did. -/
def Ended (s : TransactionHost) (events : List Event) (id : String) : Prop :=
  ∃ done ending rest t, events = done ++ ending :: rest ∧ (s.run done).running? id = some t ∧
    ending.ends t = true

/-- An event after a run publishes what a session has done. -/
structure Publishes (s : TransactionHost) (events : List Event) (e : Event) (number : Nat) :
    Prop where
  /-- A session without a copy has done nothing, and nothing is saved. -/
  silent : ((s.run events).host.session number).staged = none →
    (∀ w : Workspace, w.replay (mutations number events) = w) ∧
      ((s.run events).after e).host.repository = (s.run events).host.repository
  /-- Otherwise the saved state is the one that the copy was taken from, and it is replaced by that
  state with all mutations of the session replayed on it. -/
  replayed : ((s.run events).host.session number).staged ≠ none →
    ∃ base, s.BasedOn events number base ∧ (s.run events).host.committedFor number = base ∧
      ∀ workspace, ((s.run events).after e).host.repository.committed workspace =
        if workspace = ((s.run events).host.session number).workspace then
          { base.replay (mutations number events) with version := base.version + 1 }
        else (s.run events).host.repository.committed workspace

/-- What an event after a run saves, and which transactions it finds. -/
structure Atomic (s : TransactionHost) (events : List Event) (e : Event) : Prop where
  /-- Nothing is saved for a transaction but by a commit that is accepted. -/
  unsaved : (∀ c, e.call ≠ .session c) →
    (∀ id, e.call = .commit id → (s.run events).refusal? e ≠ none) →
      ((s.run events).after e).host.repository = (s.run events).host.repository
  /-- Such a commit publishes what the session of its transaction has done. -/
  published : ∀ id, e.call = .commit id → (s.run events).refusal? e = none →
    ∃ t number, (s.run events).running? id = some t ∧ t.underlying = .direct number ∧
      s.Publishes events e number
  /-- Whatever has been ended is not found. -/
  missing : ∀ id, s.Ended events id →
    e.call = .find id ∨ e.call = .commit id ∨ e.call = .rollback id →
      (s.run events).refusal? e = some (.transactionMissing id)

/-! ### What an event does to a session that is left to its transaction -/

theorem mutations_concat_of_none (hmutation : e.call.mutation? number = none) :
    mutations number (events ++ [e]) = mutations number events := by
  rw [mutations, List.filterMap_append, mutations]
  simp [hmutation]

theorem mutations_concat_of_some {mutation : Draws × Mutation}
    (hmutation : e.call.mutation? number = some mutation) :
    mutations number (events ++ [e]) = mutations number events ++ [mutation] := by
  rw [mutations, List.filterMap_append, mutations]
  simp [hmutation]

theorem eq_mutate_of_mutation? {d : Draws} {m : Mutation}
    (hmutation : e.call.mutation? number = some (d, m)) :
    e.call = .session (.mutate number d m) := by
  obtain ⟨now, call⟩ := e
  cases call with
  | session c =>
      cases c with
      | mutate k d' m' =>
          simp only [Call.mutation?] at hmutation
          split at hmutation
          · subst k
            obtain ⟨rfl, rfl⟩ := Prod.mk.inj (Option.some.inj hmutation)
            rfl
          · cases hmutation
      | _ => cases hmutation
  | _ => cases hmutation

/-- An event that is no mutation of a session, nor settles it, keeps the session, or leaves it
closed, or opens it. -/
theorem session_after_of_unsettled (hs : s.Registered)
    (hmutation : e.call.mutation? number = none) (hsettled : e.call.settled? ≠ some number) :
    (s.after e).host.session number = s.host.session number ∨
      ((s.after e).host.session number).live = false ∨
      s.host.sessions.length ≤ number ∧ ((s.after e).host.session number).staged = none := by
  by_cases hsession : ∀ c, e.call ≠ .session c
  · rcases session_after_cases hs hsession number with heq | hclosed
    · exact .inl heq
    · exact .inr (.inl hclosed)
  · push Not at hsession
    obtain ⟨c, hcall⟩ := hsession
    obtain ⟨now, call⟩ := e
    obtain rfl : call = .session c := hcall
    rw [after_session]
    by_cases hlt : number < s.host.sessions.length
    · rcases s.host.session_after_cases number c hlt with heq | ⟨d, m, rfl, -⟩ | ⟨hc, -⟩ | ⟨rfl, -⟩
      · exact .inl heq
      · simp [Call.mutation?] at hmutation
      · rcases hc with rfl | ⟨keep, rfl⟩
        · exact absurd rfl hsettled
        · exact absurd rfl hsettled
      · exact absurd rfl hsettled
    · exact .inr (.inr ⟨Nat.le_of_not_lt hlt,
        s.host.staged_after_of_length_le number c (Nat.le_of_not_lt hlt)⟩)

/-! ### The copy of an open session -/

/-- The copy of a session keeps its base as long as the session holds one. -/
theorem BasedOn.concat (h : s.BasedOn events number base)
    (hstaged : ((s.run (events ++ [e])).host.session number).staged ≠ none)
    (hworkspace : ((s.run (events ++ [e])).host.session number).workspace =
      ((s.run events).host.session number).workspace) :
    s.BasedOn (events ++ [e]) number base := by
  obtain ⟨done, rest, rfl, hnone, hsome, hbase⟩ := h
  refine ⟨done, rest ++ [e], by rw [List.append_assoc], hnone, fun more hmore hne => ?_,
    hworkspace ▸ hbase⟩
  rcases List.prefix_concat_iff.1 hmore with rfl | hmore
  · rw [← List.append_assoc]
    exact hstaged
  · exact hsome more hmore hne

/-- The copy of a session that takes one is based on the saved state. -/
theorem basedOn_concat (hnone : ((s.run events).host.session number).staged = none)
    (hstaged : ((s.run (events ++ [e])).host.session number).staged ≠ none)
    (hworkspace : ((s.run (events ++ [e])).host.session number).workspace =
      ((s.run events).host.session number).workspace) :
    s.BasedOn (events ++ [e]) number ((s.run events).host.committedFor number) := by
  refine ⟨events, [e], rfl, hnone, fun more hmore hne => ?_, by rw [hworkspace, Host.committedFor]⟩
  have hmore : more <+: [] ++ [e] := hmore
  rcases List.prefix_concat_iff.1 hmore with rfl | hmore
  · exact hstaged
  · exact absurd (List.prefix_nil.1 hmore) hne

/-- The invariant: an open session has a copy, which is the state that it was taken from with all
mutations of the session replayed, unless none of them had an effect. -/
structure Staging (s : TransactionHost) (events : List Event) (number : Nat) : Prop where
  unopened : (s.run events).host.sessions.length ≤ number → mutations number events = []
  silent : ((s.run events).host.session number).live = true →
    ((s.run events).host.session number).staged = none →
      ∀ w : Workspace, w.replay (mutations number events) = w
  copied : ((s.run events).host.session number).live = true →
    ∀ w, ((s.run events).host.session number).staged = some w →
      ∃ base, s.BasedOn events number base ∧ w = base.replay (mutations number events)

theorem staging_nil (hs : s.host.sessions = []) (number : Nat) : s.Staging [] number := by
  have hclosed : (s.run []).host.session number = .closed := by
    refine Host.session_of_length_le _ _ ?_
    rw [run, List.foldl_nil, hs]
    exact Nat.zero_le _
  refine ⟨fun _ => rfl, fun hlive => ?_, fun hlive => ?_⟩
  · rw [hclosed] at hlive
    cases hlive
  · rw [hclosed] at hlive
    cases hlive

/-- The invariant is kept by a mutation of the session. -/
theorem Staging.mutate (h : s.Staging events number) {d : Draws} {m : Mutation}
    (hmutation : e.call.mutation? number = some (d, m))
    (hlt : number < (s.run events).host.sessions.length)
    (hs : (s.run events).Registered) : s.Staging (events ++ [e]) number := by
  have hrun : ((s.run (events ++ [e])).host.session number) =
      leftBy (m.run ((s.run events).host.committedFor number) d)
        ((s.run events).host.session number) := by
    obtain ⟨now, call⟩ := e
    obtain rfl : call = .session (.mutate number d m) := eq_mutate_of_mutation? hmutation
    rw [run_concat, after_session, Host.session_after_mutate, if_pos rfl]
  have hlength := length_le_length_after hs e
  have hworkspace : ((s.run (events ++ [e])).host.session number).workspace =
      ((s.run events).host.session number).workspace := by
    rw [hrun, Mutation.workspace_leftBy_run]
  rw [← run_concat] at hlength
  have hstaged (hlive : ((s.run events).host.session number).live = true) :=
    Mutation.staged_leftBy_run ((s.run events).host.committedFor number) d m hlive
  constructor
  case unopened => exact fun hle => absurd (hlt.trans_le hlength) (Nat.not_lt.2 hle)
  case silent =>
    intro hlive hnone w
    rw [hrun, Mutation.live_leftBy_run] at hlive
    rw [hrun, hstaged hlive] at hnone
    -- Nothing is staged after the mutation, so it was refused before it could take a copy.
    have horphan : ((s.run events).host.session number).staged = none ∧ m.orphan? ≠ none := by
      by_contra hwrites
      rw [if_neg hwrites] at hnone
      cases hnone
    rw [mutations_concat_of_some hmutation, Workspace.replay_concat, h.silent hlive horphan.1 w,
      Workspace.applied_of_orphan _ _ horphan.2]
  case copied =>
    intro hlive w hsome
    have hne : ((s.run (events ++ [e])).host.session number).staged ≠ none := by simp [hsome]
    rw [hrun, Mutation.live_leftBy_run] at hlive
    rw [hrun, hstaged hlive] at hsome
    have hw : (((s.run events).host.session number).current
        ((s.run events).host.committedFor number)).applied (d, m) = w := by
      split at hsome
      · cases hsome
      · exact Option.some.inj hsome
    rw [mutations_concat_of_some hmutation]
    rw [Session.current] at hw
    cases hbefore : ((s.run events).host.session number).staged with
    | none =>
        refine ⟨_, basedOn_concat hbefore hne hworkspace, ?_⟩
        rw [Workspace.replay_concat, h.silent hlive hbefore, ← hw, hbefore, Option.getD_none]
    | some before =>
        obtain ⟨base, hbased, hcopy⟩ := h.copied hlive before hbefore
        refine ⟨base, hbased.concat hne hworkspace, ?_⟩
        rw [Workspace.replay_concat, ← hcopy, ← hw, hbefore, Option.getD_some]

/-- The invariant is kept by every event that leaves the session to its transaction. -/
theorem Staging.concat (h : s.Staging events number) (hs : (s.run events).Registered)
    (hopened : ∀ k, e.call.number? = some k → k < (s.run events).host.sessions.length)
    (hsettled : e.call.settled? ≠ some number) : s.Staging (events ++ [e]) number := by
  cases hmutation : e.call.mutation? number with
  | some mutation =>
      have hnumber : e.call.number? = some number := by
        rw [eq_mutate_of_mutation? (d := mutation.1) (m := mutation.2) hmutation]
        rfl
      exact h.mutate hmutation (hopened number hnumber) hs
  | none =>
      -- The session is as before, or closed, or new; of a new one no mutation has been made.
      have hlength := length_le_length_after hs e
      have hsession := session_after_of_unsettled hs hmutation hsettled
      rw [← run_concat] at hlength hsession
      have hsame : mutations number (events ++ [e]) = mutations number events :=
        mutations_concat_of_none hmutation
      constructor
      case unopened => exact fun hle => hsame ▸ h.unopened (hlength.trans hle)
      case silent =>
        intro hlive hnone w
        rw [hsame]
        rcases hsession with heq | hclosed | ⟨hle, -⟩
        · exact h.silent (heq ▸ hlive) (heq ▸ hnone) w
        · rw [hclosed] at hlive
          cases hlive
        · rw [h.unopened hle]
          rfl
      case copied =>
        intro hlive w hsome
        rw [hsame]
        rcases hsession with heq | hclosed | ⟨-, hnone⟩
        · obtain ⟨base, hbased, hcopy⟩ := h.copied (heq ▸ hlive) w (heq ▸ hsome)
          exact ⟨base, hbased.concat (by simp [hsome]) (congrArg _ heq), hcopy⟩
        · rw [hclosed] at hlive
          cases hlive
        · rw [hnone] at hsome
          cases hsome

theorem staging_of_orderly (hs : s.Registered) (hnone : s.host.sessions = [])
    (h : Orderly s events) (hsettled : ∀ e ∈ events, e.call.settled? ≠ some number) :
    s.Staging events number := by
  induction events using List.reverseRecOn with
  | nil => exact staging_nil hnone number
  | append_singleton events e ih =>
      have hbefore := ih h.of_append fun other hother =>
        hsettled other (List.mem_append_left _ hother)
      exact hbefore.concat (hs.run events) (fun k hk => h.lt_length hk)
        (hsettled e (List.mem_append_right _ (List.mem_singleton_self e)))

/-! ### What a commit publishes -/

/-- If the version of the saved state is that of the base of a copy, then it is the base: every save
in between would have counted. -/
theorem BasedOn.committedFor_eq (hs : s.Registered) (h : s.BasedOn events number base)
    (hversion : ((s.run events).host.committedFor number).version = base.version) :
    (s.run events).host.committedFor number = base := by
  obtain ⟨done, rest, rfl, -, -, rfl⟩ := h
  rw [Host.committedFor] at hversion ⊢
  have hcases := committed_run_cases (hs.run done) rest
    ((s.run (done ++ rest)).host.session number).workspace
  rw [← run_append] at hcases
  rcases hcases with heq | hlt
  · exact heq
  · exact absurd hversion.symm (Nat.ne_of_lt hlt)

/-- A commit that is accepted publishes what the session of its transaction has done. -/
theorem Staging.publishes (h : s.Staging events number) (hs : s.Registered)
    (haccepts : (s.run events).host.accepts (.save number) = true)
    (hhost : ((s.run events).after e).host =
      ((s.run events).host.after (.save number)).after (.close number)) :
    s.Publishes events e number := by
  obtain ⟨hlive, hversion⟩ := ((s.run events).host.accepts_save number).1 haccepts
  have hrepository : ((s.run events).after e).host.repository =
      ((s.run events).host.after (.save number)).repository := by
    rw [hhost, Host.after_close, Host.repository_withSession]
  constructor
  case silent =>
    intro hnone
    refine ⟨h.silent hlive hnone, ?_⟩
    rw [hrepository, Host.after_save_of_not _ _ (.inr hnone)]
  case replayed =>
    intro hne
    obtain ⟨w, hstaged⟩ := Option.ne_none_iff_exists'.1 hne
    obtain ⟨base, hbased, rfl⟩ := h.copied hlive w hstaged
    have hsaved := hversion _ hstaged
    rw [Workspace.version_replay] at hsaved
    refine ⟨base, hbased, hbased.committedFor_eq hs hsaved, fun workspace => ?_⟩
    rw [hrepository, Host.committed_after_save _ _ hstaged haccepts, Workspace.version_replay]

/-- The session of a running transaction is left to it. -/
theorem Owned.settled?_ne (h : Owned events) (hs : s.Registered) (hblank : s.running? id = none)
    (ht : (s.run events).running? id = some t) (hnumber : t.underlying = .direct number) :
    ∀ e ∈ events, e.call.settled? ≠ some number := by
  obtain ⟨e, he, k, hcall, hk⟩ := exists_start_of_running? hs hblank ht
  obtain rfl : k = number := by
    rw [hnumber] at hk
    exact (Access.direct.inj hk).symm
  exact h e he k (congrArg Call.over? hcall)

/-- **Transactions publish all or nothing**, and at most once, in every orderly run that leaves
their sessions to them. -/
theorem atomic_of_orderly {r : Repository} {timeout : Nat}
    (h : Orderly (.start r timeout) (events ++ [e])) (howned : Owned (events ++ [e])) :
    Atomic (.start r timeout) events e := by
  have hs := registered_start r timeout
  have hregistered := hs.run events
  constructor
  case unsaved =>
    exact fun hsession hcommit => (closesOnly_after hregistered hsession hcommit).repository
  case published =>
    intro id hcall haccepted
    obtain ⟨now, call⟩ := e
    obtain rfl : call = .commit id := hcall
    obtain ⟨t, number, ht, hnumber, haccepts, hhost⟩ :=
      exists_running_of_commit hregistered haccepted
    have hevents : Owned events := fun e he k hk other hother =>
      howned e (List.mem_append_left _ he) k hk other (List.mem_append_left _ hother)
    have hsettled := hevents.settled?_ne hs (running?_start r timeout id) ht hnumber
    have hstaging := staging_of_orderly hs rfl h.of_append hsettled
    exact ⟨t, number, ht, hnumber, hstaging.publishes hs haccepts hhost⟩
  case missing =>
    rintro id ⟨done, ending, rest, t, rfl, ht, hends⟩ hcall
    have hnone := running?_run_of_ends hs (running?_start r timeout id) h.of_append ht hends
    obtain ⟨now, call⟩ := e
    rcases hcall with rfl | rfl | rfl
    · rw [refusal?_find, hnone]
    · rw [refusal?_commit, hnone]
    · rw [refusal?_rollback, hnone]

/-- A run in which two sessions write, and one of them saves before the other one begins to, within
a transaction. -/
def succession : List Event :=
  let d (number : Nat) : Draws := ⟨fun j => toString number ++ ":" ++ toString j, .epoch⟩
  [⟨.epoch, .session (.opening "default")⟩, ⟨.epoch, .session (.opening "default")⟩,
    ⟨.epoch, .session (.mutate 1 (d 1) (.createContainer "/b"))⟩, ⟨.epoch, .session (.save 1)⟩,
    ⟨.epoch, .start "tx" 0⟩, ⟨.epoch, .session (.mutate 0 (d 2) (.createContainer "/a"))⟩]

/-- The commit of the transaction is accepted. -/
theorem atomic_of_orderly_succession :
    let s := start (.start "root") 60
    let e : Event := ⟨.epoch, .commit "tx"⟩
    Orderly s (succession ++ [e]) ∧ Owned (succession ++ [e]) ∧
      (s.run succession).refusal? e = none ∧ Atomic s succession e := by
  intro s e
  have horderly : Orderly s (succession ++ [e]) := ⟨by decide +kernel, by decide +kernel⟩
  have howned : Owned (succession ++ [e]) := by decide +kernel
  exact ⟨horderly, howned, by decide +kernel, atomic_of_orderly horderly howned⟩

end LinkedStore.TransactionHost
