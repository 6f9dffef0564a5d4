import LinkedStore.Proofs.Transaction.Run

/-!
# Expired transactions

From the moment of its expiry on a transaction is not found: a look-up discards it.  Until a
look-up, a sweep, a rollback or a commit takes it out of the registry, however, it stays there as it
is, and a commit does not look at the clock.  So an expired transaction that nothing has ended is
committed as any other one, while after an event that has ended it a commit is refused.

## Main definitions

* `TransactionHost.Clocked` : the clock does not run backwards.
* `TransactionHost.TreatsExpired` : how an event treats a transaction that has expired.

## Main statements

* `TransactionHost.running?_run_of_expired` : what a run makes of an expired transaction.
* `TransactionHost.treatsExpired_of_orderly` : how each event of a run treats it.
-/

namespace LinkedStore

theorem Instant.le_trans {x y z : Instant} (hxy : x ≤ y) (hyz : y ≤ z) : x ≤ z := by
  rw [le_def] at *
  omega

namespace TransactionHost

variable {s : TransactionHost} {e : Event} {t : Transaction} {id : String} {number : Nat}
  {now : Instant} {events more : List Event}

/-- The clock does not run backwards in the course of the events. -/
def Clocked (events : List Event) : Prop := events.Pairwise fun e e' => e.now ≤ e'.now

instance (events : List Event) : Decidable (Clocked events) :=
  inferInstanceAs (Decidable (events.Pairwise _))

/-- What comes after an event that is past an expiry is past it as well. -/
theorem Clocked.expires_le (h : Clocked (events ++ e :: more)) (hdue : t.expires ≤ e.now) :
    ∀ other ∈ e :: more, t.expires ≤ other.now := by
  intro other hother
  rcases List.mem_cons.1 hother with rfl | hother
  · exact hdue
  · have hrest := List.pairwise_cons.1 (List.pairwise_append.1 h).2.1
    exact Instant.le_trans hdue (hrest.1 other hother)

/-- An event that does not end an expired transaction keeps it as it is. -/
theorem kept_of_expired (hdue : t.expires ≤ e.now) (hends : e.ends t = false) :
    s.kept e t = t := by
  obtain ⟨now, call⟩ := e
  cases call with
  | find id =>
      have hexpired : t.isExpired now = true := Transaction.isExpired_iff.2 hdue
      rw [Event.ends] at hends
      simp only [hexpired, Bool.and_true, decide_eq_false_iff_not] at hends
      simp only [kept, if_neg hends]
  | _ => rfl

/-- **What a run makes of an expired transaction**: it stays in the registry as it is until an event
ends it. -/
theorem running?_run_of_expired (hs : s.Registered) (ht : s.running? id = some t)
    (hdue : ∀ e ∈ events, t.expires ≤ e.now)
    (hstart : ∀ e ∈ events, e.call.started? ≠ some id) :
    (s.run events).running? id = if events.any (·.ends t) then none else some t := by
  induction events using List.reverseRecOn with
  | nil => exact ht
  | append_singleton events e ih =>
      have hlast : e ∈ events ++ [e] := List.mem_append_right _ (List.mem_singleton_self e)
      have hbefore := ih (fun other hother => hdue other (List.mem_append_left _ hother))
        fun other hother => hstart other (List.mem_append_left _ hother)
      rw [run_concat, List.any_append, List.any_cons, List.any_nil, Bool.or_false]
      -- A look-up would set the expiry anew, but one that is past the expiry ends the transaction.
      cases hended : events.any (·.ends t) with
      | true =>
          rw [hended, if_pos rfl] at hbefore
          exact running?_after_of_none (hs.run events) hbefore (hstart e hlast)
      | false =>
          rw [hended, if_neg Bool.false_ne_true] at hbefore
          rw [running?_after_of_some (hs.run events) hbefore (hstart e hlast), Bool.false_or]
          cases hends : e.ends t with
          | true => rfl
          | false => rw [kept_of_expired (hdue e hlast) hends]

/-- How an event treats a transaction that has expired, and that earlier events have ended or not
since then. -/
structure TreatsExpired (s : TransactionHost) (e : Event) (t : Transaction) (ended : Bool) :
    Prop where
  /-- The transaction is in the registry, unless it has been ended. -/
  running : s.running? t.id = if ended then none else some t
  /-- It is not found. -/
  missing : e.call = .find t.id → s.refusal? e = some (.transactionMissing t.id)
  /-- Nothing is saved by a look-up, a rollback or a sweep. -/
  unsaved : (e.call = .find t.id ∨ e.call = .rollback t.id ∨ ∃ asOf, e.call = .sweep asOf) →
    (s.after e).host.repository = s.host.repository
  /-- A commit of it is refused if it has been ended. -/
  refused : ended = true → e.call = .commit t.id →
    s.refusal? e = some (.transactionMissing t.id) ∧ s.after e = s
  /-- Otherwise it is committed as any other one: its session is saved and closed, if it can be
  saved. -/
  committed : ended = false → e.call = .commit t.id →
    ∃ number, t.underlying = .direct number ∧
      (s.refusal? e = none ↔ s.host.accepts (.save number) = true) ∧
      (s.after e).host =
        if s.host.accepts (.save number) then (s.host.after (.save number)).after (.close number)
        else s.host

theorem treatsExpired (hs : s.Registered) (hid : t.id = id) {ended : Bool}
    (hdirect : ∃ number, t.underlying = .direct number)
    (hrunning : s.running? id = if ended then none else some t) (hdue : t.expires ≤ e.now) :
    s.TreatsExpired e t ended := by
  subst hid
  obtain ⟨now, call⟩ := e
  have hexpired : t.isExpired now = true := Transaction.isExpired_iff.2 hdue
  constructor
  case running => exact hrunning
  case missing =>
    rintro rfl
    rw [refusal?_find, hrunning]
    cases ended with
    | true => rfl
    | false => simp only [Bool.false_eq_true, if_false, hexpired, if_true]
  case unsaved =>
    intro hcall
    refine (closesOnly_after hs ?_ ?_).repository
    · rintro c rfl
      simp at hcall
    · rintro other rfl
      simp at hcall
  case refused =>
    rintro rfl rfl
    rw [if_pos rfl] at hrunning
    rw [refusal?_commit, after_commit, hrunning]
    exact ⟨rfl, rfl⟩
  case committed =>
    rintro rfl rfl
    rw [if_neg Bool.false_ne_true] at hrunning
    obtain ⟨number, hnumber⟩ := hdirect
    refine ⟨number, hnumber, refusal?_commit_eq_none_iff hrunning hnumber now, ?_⟩
    rw [after_commit_of_running hrunning hnumber]

/-- **An expired transaction is not found, but committed** unless it has been ended: so every event
treats it from the first one on that is past its expiry. -/
theorem treatsExpired_of_orderly {r : Repository} {timeout : Nat} {rest : List Event}
    {first : Event} (h : Orderly (.start r timeout) (events ++ first :: rest))
    (hclock : Clocked (events ++ first :: rest))
    (ht : ((start r timeout).run events).running? id = some t) (hdue : t.expires ≤ first.now) :
    ∀ more e later, first :: rest = more ++ e :: later →
      TreatsExpired ((start r timeout).run (events ++ more)) e t (more.any (·.ends t)) := by
  intro more e later hsplit
  have hs := registered_start r timeout
  have hregistered := hs.run events
  have hpast := hclock.expires_le hdue
  have hstart := h.not_started_of_running? hs (running?_start r timeout id) ht
  rw [hsplit] at hpast hstart
  have hrunning : (((start r timeout).run events).run more).running? id =
      if more.any (·.ends t) then none else some t :=
    running?_run_of_expired hregistered ht
      (fun other hother => hpast other (List.mem_append_left _ hother))
      (fun other hother => hstart other (List.mem_append_left _ hother))
  rw [run_append]
  exact treatsExpired (hregistered.run more) (hregistered.id ht) (hregistered.direct ht) hrunning
    (hpast e (List.mem_append_right _ List.mem_cons_self))

/-- A run in which a transaction that has expired is committed. -/
def overdue : List Event :=
  [⟨.epoch, .session (.opening "default")⟩, ⟨.epoch, .start "tx" 0⟩,
    ⟨.epoch, .session (.mutate 0 ⟨toString, .epoch⟩ (.createContainer "/a"))⟩,
    ⟨.epoch, .commit "tx"⟩]

/-- The commit treats the transaction as one that has not been ended. -/
theorem treatsExpired_of_orderly_overdue :
    let s := start (.start "root") 0
    Orderly s overdue ∧ Clocked overdue ∧
      (s.run (overdue.take 2)).running? "tx" = some ⟨"tx", .direct 0, .epoch⟩ ∧
      TreatsExpired (s.run (overdue.take 3)) ⟨.epoch, .commit "tx"⟩ ⟨"tx", .direct 0, .epoch⟩
        false := by
  intro s
  let writing : Event := ⟨.epoch, .session (.mutate 0 ⟨toString, .epoch⟩ (.createContainer "/a"))⟩
  have horderly : Orderly s (overdue.take 2 ++ writing :: overdue.drop 3) :=
    ⟨by decide +kernel, by decide +kernel⟩
  have hclock : Clocked (overdue.take 2 ++ writing :: overdue.drop 3) := by decide +kernel
  have hrunning : (s.run (overdue.take 2)).running? "tx" = some ⟨"tx", .direct 0, .epoch⟩ := by
    decide +kernel
  exact ⟨horderly, hclock, hrunning,
    treatsExpired_of_orderly horderly hclock hrunning (by decide) [writing] _ [] rfl⟩

/-- So it is not true of every commit of an expired transaction that it is refused for the
transaction missing, nor of every one that it saves nothing. -/
theorem not_missing_of_expired :
    ¬∀ (events : List Event) (e : Event) (id : String) (t : Transaction),
      Orderly (.start (.start "root") 0) (events ++ [e]) → Clocked (events ++ [e]) →
      ((start (.start "root") 0).run events).running? id = some t → t.expires ≤ e.now →
      e.call = .commit id →
        ((start (.start "root") 0).run events).refusal? e = some (.transactionMissing id) ∨
          ∀ workspace,
            (((start (.start "root") 0).run events).after e).host.repository.committed workspace =
              ((start (.start "root") 0).run events).host.repository.committed workspace := by
  intro hall
  rcases hall (overdue.take 3) ⟨.epoch, .commit "tx"⟩ "tx" ⟨"tx", .direct 0, .epoch⟩
    ⟨by decide +kernel, by decide +kernel⟩ (by decide +kernel) (by decide +kernel) (by decide)
    rfl with hmissing | hunsaved
  · exact absurd hmissing (by decide +kernel)
  · have hnode := congrArg (Workspace.node? · "/a") (hunsaved "default")
    exact absurd hnode (by decide +kernel)

end TransactionHost

end LinkedStore
