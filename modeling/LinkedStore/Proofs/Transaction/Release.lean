import LinkedStore.Proofs.Transaction.Run

/-!
# Sessions of transactions

A transaction that has been started is running, or its session is closed.  The one exception is a
commit that is refused since the workspace has been saved by another session meanwhile: it takes the
transaction out of the registry, and leaves the session open.

The invariant is about each transaction that has been started.  An event that ends it closes its
session, unless it is such a commit, and no event opens a session again.

## Main definitions

* `TransactionHost.StaleCommit` : a commit is refused since the workspace has been saved meanwhile.
* `TransactionHost.Stranded` : such a commit has been made in a run.
* `TransactionHost.Released` : where the transactions of a run are.

## Main statements

* `TransactionHost.StaleCommit.after` : a stale commit loses the transaction and keeps the session.
* `TransactionHost.released_of_orderly` : where the transactions are after an orderly run.
-/

namespace LinkedStore.TransactionHost

variable {s : TransactionHost} {e : Event} {t : Transaction} {id : String} {number : Nat}
  {now : Instant} {events : List Event}

/-- A commit of a transaction over a session is refused since the workspace of the session has been
saved meanwhile. -/
structure StaleCommit (s : TransactionHost) (now : Instant) (id : String) (number : Nat) :
    Prop where
  running : ∃ t, s.running? id = some t ∧ t.underlying = .direct number
  refused : s.refusal? ⟨now, .commit id⟩ =
    some (.repository (.staleChanges (s.host.session number).workspace))

/-- A commit of a transaction over an open session is stale if it is refused. -/
theorem staleCommit_of_refused (ht : s.running? id = some t)
    (hnumber : t.underlying = .direct number) (hlive : (s.host.session number).live = true)
    (hrefused : s.refusal? ⟨now, .commit id⟩ ≠ none) : s.StaleCommit now id number where
  running := ⟨t, ht, hnumber⟩
  refused := by
    rw [Ne, refusal?_commit_eq_none_iff ht hnumber, Bool.not_eq_true] at hrefused
    rw [refusal?_commit, ht]
    simp only [Transaction.refusalBy_commit hnumber]
    exact (s.host.refusalBy_save_eq_stale_iff number).2 ⟨hlive, hrefused⟩

/-- A stale commit loses the transaction, and keeps the session open. -/
theorem StaleCommit.after (h : s.StaleCommit now id number) :
    (s.after ⟨now, .commit id⟩).running? id = none ∧
      ((s.after ⟨now, .commit id⟩).host.session number).live = true := by
  obtain ⟨t, ht, hnumber⟩ := h.running
  have hstale := h.refused
  rw [refusal?_commit, ht] at hstale
  simp only [Transaction.refusalBy_commit hnumber] at hstale
  obtain ⟨hlive, hrefused⟩ := (s.host.refusalBy_save_eq_stale_iff number).1 hstale
  rw [after_commit_of_running ht hnumber, running?_release, if_pos rfl]
  simp only [hrefused, Bool.false_eq_true, if_false, hlive, and_self]

/-- A stale commit of a transaction over a session has been made in a run. -/
def Stranded (s : TransactionHost) (events : List Event) (id : String) (number : Nat) : Prop :=
  ∃ done now rest, events = done ++ ⟨now, .commit id⟩ :: rest ∧
    (s.run done).StaleCommit now id number

theorem Stranded.concat (h : s.Stranded events id number) (e : Event) :
    s.Stranded (events ++ [e]) id number := by
  obtain ⟨done, now, rest, rfl, hstale⟩ := h
  exact ⟨done, now, rest ++ [e], by simp, hstale⟩

/-- Where the transactions of a run are. -/
structure Released (s : TransactionHost) (events : List Event) : Prop where
  /-- What has been started is running, or its session is closed, or it has been stranded. -/
  accounted : ∀ now id number, ⟨now, .start id number⟩ ∈ events →
    (∃ t, (s.run events).running? id = some t ∧ t.underlying = .direct number) ∨
      ((s.run events).host.session number).live = false ∨ s.Stranded events id number
  /-- What has been stranded is not running. -/
  forgotten : ∀ id number, s.Stranded events id number → (s.run events).running? id = none
  /-- It is left with its session open. -/
  leaked : ∀ done now id number, events = done ++ [⟨now, .commit id⟩] →
    (s.run done).StaleCommit now id number → ((s.run events).host.session number).live = true

/-- An event that ends a transaction closes its session or strands it. -/
theorem closed_or_stranded_of_ends (hs : (s.run events).Registered)
    (hlt : number < (s.run events).host.sessions.length)
    (ht : (s.run events).running? id = some t) (hnumber : t.underlying = .direct number)
    (hends : e.ends t = true) :
    (((s.run events).after e).host.session number).live = false ∨
      s.Stranded (events ++ [e]) id number := by
  by_cases hcommit : e.call = .commit id → (s.run events).refusal? e = none
  · exact .inl (live_after_of_ends hs ht hnumber hends hcommit)
  · push Not at hcommit
    obtain ⟨hcall, hrefused⟩ := hcommit
    obtain ⟨now, call⟩ := e
    obtain rfl : call = .commit id := hcall
    cases hlive : ((s.run events).host.session number).live with
    | false => exact .inl (live_after_eq_false hs hlt hlive _)
    | true =>
        exact .inr ⟨events, now, [], rfl, staleCommit_of_refused ht hnumber hlive hrefused⟩

/-- What has been started is running, or its session is closed, or it has been stranded. -/
theorem accounted_of_orderly (hs : s.Registered) (h : Orderly s events)
    (hstart : ⟨now, .start id number⟩ ∈ events) :
    (∃ t, (s.run events).running? id = some t ∧ t.underlying = .direct number) ∨
      ((s.run events).host.session number).live = false ∨ s.Stranded events id number := by
  induction events using List.reverseRecOn with
  | nil => cases hstart
  | append_singleton events e ih =>
      rw [run_concat]
      have hregistered := hs.run events
      -- Started before, the transaction is not started again; it ends here, or runs on.
      rcases List.mem_append.1 hstart with hstart | hstart
      · have hlt := h.of_append.lt_length_of_mem hs hstart rfl
        rcases ih h.of_append hstart with ⟨t, ht, hnumber⟩ | hclosed | hstranded
        · rw [running?_after_of_some hregistered ht (h.not_restarted hstart rfl)]
          by_cases hends : e.ends t = true
          · exact .inr (closed_or_stranded_of_ends hregistered hlt ht hnumber hends)
          · rw [if_neg hends]
            exact .inl ⟨_, rfl, by rw [underlying_kept, hnumber]⟩
        · exact .inr (.inl (live_after_eq_false hregistered hlt hclosed e))
        · exact .inr (.inr (hstranded.concat e))
      · obtain rfl := List.mem_singleton.1 hstart
        exact .inl ⟨_, (running?_after_start ..).trans (if_pos rfl), rfl⟩

/-- **Every transaction is accounted for**: it is running, or its session is closed, or a stale
commit has lost it and left its session open. -/
theorem released_of_orderly {r : Repository} {timeout : Nat}
    (h : Orderly (.start r timeout) events) : Released (.start r timeout) events where
  accounted _ _ _ hstart := accounted_of_orderly (registered_start r timeout) h hstart
  forgotten id number := by
    rintro ⟨done, now, rest, rfl, hstale⟩
    obtain ⟨t, ht, -⟩ := hstale.running
    have hid := ((registered_start r timeout).run done).id ht
    exact running?_run_of_ends (registered_start r timeout) (running?_start r timeout id) h ht
      (decide_eq_true hid.symm)
  leaked := by
    rintro done now id number rfl hstale
    rw [run_concat]
    exact hstale.after.2

/-- A run in which a transaction is committed after another session has saved. -/
def conflict : List Event :=
  let d (number : Nat) : Draws := ⟨fun j => toString number ++ ":" ++ toString j, .epoch⟩
  [⟨.epoch, .session (.opening "default")⟩, ⟨.epoch, .session (.opening "default")⟩,
    ⟨.epoch, .start "tx" 0⟩, ⟨.epoch, .session (.mutate 0 (d 1) (.createContainer "/a"))⟩,
    ⟨.epoch, .session (.mutate 1 (d 2) (.createContainer "/b"))⟩, ⟨.epoch, .session (.save 1)⟩,
    ⟨.epoch, .commit "tx"⟩]

theorem orderly_conflict : Orderly (.start (.start "root") 60) conflict where
  opened := by decide +kernel
  fresh := by decide +kernel

/-- The commit strands the transaction. -/
theorem released_of_orderly_conflict :
    Orderly (.start (.start "root") 60) conflict ∧
      Released (.start (.start "root") 60) conflict ∧
      Stranded (.start (.start "root") 60) conflict "tx" 0 := by
  refine ⟨orderly_conflict, released_of_orderly orderly_conflict, conflict.take 6, .epoch, [], ?_,
    ⟨⟨⟨"tx", .direct 0, Instant.epoch.later 60⟩, ?_, rfl⟩, ?_⟩⟩
  · rfl
  · decide +kernel
  · decide +kernel

/-- So it is not true of every transaction that it is running or its session is closed. -/
theorem not_released_of_orderly :
    ¬∀ (events : List Event), Orderly (.start (.start "root") 60) events →
      ∀ now id number, ⟨now, .start id number⟩ ∈ events →
        (((start (.start "root") 60).run events).running? id).isSome = true ∨
          (((start (.start "root") 60).run events).host.session number).live = false := by
  intro hall
  have hstarted : (⟨.epoch, .start "tx" 0⟩ : Event) ∈ conflict :=
    .tail _ (.tail _ (.head _))
  exact absurd (hall conflict orderly_conflict .epoch "tx" 0 hstarted) (by decide +kernel)

end LinkedStore.TransactionHost
