import LinkedStore.Proofs.Store.Table
import LinkedStore.Proofs.Transaction.Event
import Mathlib.Data.List.Induction

/-!
# Runs of a host with transactions

A run is a list of events in the order in which they are made.  Whatever becomes of a transaction, a
registry does to the sessions nothing but close some of them, except that a commit that is accepted
saves one first.

## Main definitions

* `TransactionHost.run` : what a list of events leaves.
* `TransactionHost.Event.ends` : whether an event takes a running transaction out of the registry.
* `TransactionHost.Orderly` : sessions are used once they are open, and identifiers only once.

## Main statements

* `TransactionHost.running?_after` : what each event makes of a running transaction.
* `TransactionHost.session_foldl_discarded` : what becomes of the sessions of transactions that are
  discarded.
* `TransactionHost.closesOnly_after`, `TransactionHost.host_after_cases` : what each event does to
  the sessions.
* `TransactionHost.live_after_of_ends` : an event that ends a transaction closes its session.
-/

namespace LinkedStore.TransactionHost

open TransactionRegistry

variable {s : TransactionHost} {e : Event} {t : Transaction} {id : String} {number : Nat}
  {now : Instant}

/-! ### What becomes of a running transaction -/

/-- Whether an event takes a running transaction out of the registry. -/
def Event.ends (e : Event) (t : Transaction) : Bool :=
  match e.call with
  | .find id => decide (id = t.id) && t.isExpired e.now
  | .commit id | .rollback id => decide (id = t.id)
  | .sweep asOf => t.isExpired asOf
  | .session _ | .start _ _ => false

/-- A running transaction as an event leaves it that does not end it: a look-up sets its expiry
anew. -/
def kept (s : TransactionHost) (e : Event) (t : Transaction) : Transaction :=
  match e.call with
  | .find id => if id = t.id then s.renewed e.now t else t
  | _ => t

theorem running?_hold (s : TransactionHost) (t : Transaction) (id : String) :
    running? { s with registry := s.registry.hold t } id =
      if t.id = id then some t else s.running? id := Table.getElem?_insert ..

theorem running?_release (s : TransactionHost) (h : Host) (key id : String) :
    running? ⟨h, s.registry.release key⟩ id = if key = id then none else s.running? id :=
  Table.getElem?_erase ..

theorem running?_foldl_discarded (s : TransactionHost) (ts : List Transaction) (id : String) :
    (ts.foldl discarded s).running? id =
      if ∃ t ∈ ts, t.id = id then none else s.running? id := by
  induction ts generalizing s with
  | nil => simp
  | cons t ts ih =>
      rw [List.foldl_cons, ih, discarded, running?_release]
      by_cases ht : t.id = id
      · simp [ht]
      · simp [ht]

/-- A transaction that has been started is running. -/
theorem running?_after_start (s : TransactionHost) (now : Instant) (key id : String)
    (number : Nat) :
    (s.after ⟨now, .start key number⟩).running? id =
      if key = id then some ⟨key, .direct number, s.registry.expiryFrom now⟩
      else s.running? id := by
  rw [after_start, running?_hold]

/-- A transaction that has been looked up is gone if it has expired, and else runs on. -/
theorem running?_after_find (hs : s.Registered) (now : Instant) (key id : String) :
    (s.after ⟨now, .find key⟩).running? id =
      if key = id then
        (s.running? id).bind fun t => if t.isExpired now then none else some (s.renewed now t)
      else s.running? id := by
  rw [after_find]
  cases ht : s.running? key with
  | none =>
      by_cases hkey : key = id
      · subst hkey
        rw [if_pos rfl, ht, Option.bind_none]
      · rw [if_neg hkey]
  | some t =>
      obtain rfl := hs.id ht
      simp only
      by_cases hkey : t.id = id
      · subst hkey
        rw [if_pos rfl, ht, Option.bind_some]
        split
        · rw [discarded, running?_release, if_pos rfl]
        · rw [running?_hold, renewed, if_pos rfl]
      · rw [if_neg hkey]
        split
        · rw [discarded, running?_release, if_neg hkey]
        · rw [running?_hold, renewed, if_neg hkey]

/-- A transaction that has been committed or rolled back is gone. -/
theorem running?_after_ending {call : Call} {key : String}
    (hcall : call = .commit key ∨ call = .rollback key) (s : TransactionHost) (now : Instant)
    (id : String) :
    (s.after ⟨now, call⟩).running? id = if key = id then none else s.running? id := by
  have hgone (hnone : s.running? key = none) :
      s.running? id = if key = id then none else s.running? id := by
    split
    · subst key
      exact hnone
    · rfl
  rcases hcall with rfl | rfl
  · rw [after_commit]
    cases hkey : s.running? key with
    | none => exact hgone hkey
    | some t => exact running?_release ..
  · rw [after_rollback]
    cases hkey : s.running? key with
    | none => exact hgone hkey
    | some t => exact running?_release ..

/-- A transaction that has been swept is gone if it had expired. -/
theorem running?_after_sweep (hs : s.Registered) (now asOf : Instant) (id : String) :
    (s.after ⟨now, .sweep asOf⟩).running? id =
      (s.running? id).bind fun t => if t.isExpired asOf then none else some t := by
  rw [after_sweep, running?_foldl_discarded]
  cases ht : s.running? id with
  | none => rw [ite_self, Option.bind_none]
  | some t =>
      obtain rfl := hs.id ht
      have hexpired : (∃ other ∈ s.expired asOf, other.id = t.id) ↔ t.isExpired asOf = true := by
        constructor
        · rintro ⟨other, hother, hid⟩
          obtain ⟨hvalue, hexpired⟩ := List.mem_filter.1 hother
          obtain ⟨key, hkey⟩ := Table.mem_values_iff.1 hvalue
          have hkept : s.running? t.id = some other := hid ▸ hs.id hkey ▸ hkey
          rw [ht] at hkept
          exact Option.some.inj hkept ▸ hexpired
        · intro hexpired
          exact ⟨t, List.mem_filter.2 ⟨Table.mem_values_iff.2 ⟨t.id, ht⟩, hexpired⟩, rfl⟩
      exact if_congr hexpired rfl rfl

/-- **What each event makes of a running transaction**: it ends it, or keeps it.  Of an identifier
that is not in use it makes nothing, unless it starts a transaction under it. -/
theorem running?_after (hs : s.Registered) (hstart : e.call.started? ≠ some id) :
    (s.after e).running? id =
      (s.running? id).bind fun t => if e.ends t then none else some (s.kept e t) := by
  have hid {t : Transaction} (ht : s.running? id = some t) : t.id = id := hs.id ht
  obtain ⟨now, call⟩ := e
  cases call with
  | session c =>
      rw [after_session]
      exact (Option.bind_fun_some (s.running? id)).symm
  | start key number =>
      have hkey : key ≠ id := fun heq => hstart (congrArg some heq)
      rw [running?_after_start, if_neg hkey]
      exact (Option.bind_fun_some (s.running? id)).symm
  | find key =>
      rw [running?_after_find hs]
      cases ht : s.running? id with
      | none => simp
      | some t => by_cases hkey : key = id <;> simp [Event.ends, kept, hid ht, hkey]
  | commit key =>
      rw [running?_after_ending (.inl rfl)]
      cases ht : s.running? id with
      | none => simp
      | some t => by_cases hkey : key = id <;> simp [Event.ends, kept, hid ht, hkey]
  | rollback key =>
      rw [running?_after_ending (.inr rfl)]
      cases ht : s.running? id with
      | none => simp
      | some t => by_cases hkey : key = id <;> simp [Event.ends, kept, hid ht, hkey]
  | sweep asOf => exact running?_after_sweep hs now asOf id

theorem running?_after_of_none (hs : s.Registered) (hnone : s.running? id = none)
    (hstart : e.call.started? ≠ some id) : (s.after e).running? id = none := by
  rw [running?_after hs hstart, hnone, Option.bind_none]

theorem running?_after_of_some (hs : s.Registered) (ht : s.running? id = some t)
    (hstart : e.call.started? ≠ some id) :
    (s.after e).running? id = if e.ends t then none else some (s.kept e t) := by
  rw [running?_after hs hstart, ht, Option.bind_some]

@[simp] theorem id_kept (s : TransactionHost) (e : Event) (t : Transaction) :
    (s.kept e t).id = t.id := by
  rw [kept]
  split
  · split <;> rfl
  · rfl

@[simp] theorem underlying_kept (s : TransactionHost) (e : Event) (t : Transaction) :
    (s.kept e t).underlying = t.underlying := by
  rw [kept]
  split
  · split <;> rfl
  · rfl

/-- A transaction is running after an event if it was before, or if the event has started it. -/
theorem running?_after_cases (hs : s.Registered) (ht : (s.after e).running? id = some t) :
    (∃ number, e.call = .start id number ∧ t.underlying = .direct number) ∨
      ∃ before, s.running? id = some before ∧ t = s.kept e before := by
  by_cases hstart : e.call.started? = some id
  · obtain ⟨now, call⟩ := e
    cases call with
    | start key number =>
        obtain rfl := Option.some.inj hstart
        rw [running?_after_start, if_pos rfl] at ht
        exact .inl ⟨number, rfl, by rw [← Option.some.inj ht]⟩
    | _ => cases hstart
  · cases hbefore : s.running? id with
    | none =>
        rw [running?_after_of_none hs hbefore hstart] at ht
        cases ht
    | some before =>
        rw [running?_after_of_some hs hbefore hstart] at ht
        split at ht
        · cases ht
        · exact .inr ⟨before, rfl, (Option.some.inj ht).symm⟩

theorem Registered.after (hs : s.Registered) (e : Event) : (s.after e).Registered where
  id {id t} ht := by
    rcases running?_after_cases hs ht with ⟨number, hcall, -⟩ | ⟨before, hbefore, rfl⟩
    · obtain ⟨now, call⟩ := e
      obtain rfl : call = .start id number := hcall
      rw [running?_after_start, if_pos rfl] at ht
      rw [← Option.some.inj ht]
    · rw [id_kept, hs.id hbefore]
  direct ht := by
    rcases running?_after_cases hs ht with ⟨number, -, hnumber⟩ | ⟨before, hbefore, rfl⟩
    · exact ⟨number, hnumber⟩
    · rw [underlying_kept]
      exact hs.direct hbefore

/-! ### What becomes of the sessions -/

theorem Registered.direct_of_mem_expired (hs : s.Registered) {asOf : Instant}
    (ht : t ∈ s.expired asOf) : ∃ number, t.underlying = .direct number := by
  obtain ⟨key, hkey⟩ := Table.mem_values_iff.1 (List.mem_filter.1 ht).1
  exact hs.direct hkey

theorem closesOnly_foldl_discarded {ts : List Transaction}
    (hts : ∀ t ∈ ts, ∃ number, t.underlying = .direct number) :
    s.host.ClosesOnly (ts.foldl discarded s).host := by
  induction ts generalizing s with
  | nil => exact .refl _
  | cons t ts ih =>
      obtain ⟨number, hnumber⟩ := hts t List.mem_cons_self
      have hrest := ih (s := s.discarded t) fun other hother =>
        hts other (List.mem_cons_of_mem t hother)
      exact (Transaction.closesOnly_leftBy_rollback hnumber s.host).trans hrest

/-- What becomes of the sessions of those that are discarded. -/
theorem session_foldl_discarded {ts : List Transaction}
    (hts : ∀ t ∈ ts, ∃ number, t.underlying = .direct number) (k : Nat) :
    (ts.foldl discarded s).host.session k =
      if (∃ t ∈ ts, t.underlying = .direct k) ∧ (s.host.session k).live = true then
        (s.host.session k).rolledBack
      else s.host.session k := by
  induction ts generalizing s with
  | nil => simp
  | cons t ts ih =>
      obtain ⟨⟨number, hnumber⟩, hrest⟩ := List.forall_mem_cons.1 hts
      have hfirst : (s.discarded t).host.session k = _ :=
        Transaction.session_leftBy_rollback hnumber s.host k
      rw [List.foldl_cons, ih hrest, hfirst]
      -- Transactions may share a session: it is closed by the first of them.
      by_cases hk : k = number ∧ (s.host.session k).live = true
      · obtain ⟨rfl, hlive⟩ := hk
        simp [hlive, hnumber, Session.rolledBack]
      · rw [if_neg hk]
        refine if_congr (and_congr_left fun hlive => ?_) rfl rfl
        have hother : t.underlying ≠ .direct k := by
          rw [hnumber]
          exact fun heq => hk ⟨(Access.direct.inj heq).symm, hlive⟩
        simp [hother]

/-- Whoever is discarded has its session closed. -/
theorem live_foldl_discarded {ts : List Transaction}
    (hts : ∀ t ∈ ts, ∃ number, t.underlying = .direct number) (ht : t ∈ ts)
    (hnumber : t.underlying = .direct number) :
    ((ts.foldl discarded s).host.session number).live = false := by
  rw [session_foldl_discarded hts]
  split
  · rfl
  · rename_i hclosed
    exact Bool.eq_false_iff.2 fun hlive => hclosed ⟨⟨t, ht, hnumber⟩, hlive⟩

/-- A commit that finds its transaction. -/
theorem after_commit_of_running (ht : s.running? id = some t)
    (hnumber : t.underlying = .direct number) (now : Instant) :
    s.after ⟨now, .commit id⟩ =
      ⟨if s.host.accepts (.save number) then
          (s.host.after (.save number)).after (.close number)
        else s.host, s.registry.release id⟩ := by
  rw [after_commit, ht]
  simp only [Transaction.leftBy_commit hnumber]

/-- A commit that finds its transaction is refused if the session cannot be saved. -/
theorem refusal?_commit_eq_none_iff (ht : s.running? id = some t)
    (hnumber : t.underlying = .direct number) (now : Instant) :
    s.refusal? ⟨now, .commit id⟩ = none ↔ s.host.accepts (.save number) = true := by
  rw [refusal?_commit, ht, ← Host.refusalBy_eq_none_iff]
  simp only [Transaction.refusalBy_commit hnumber]

/-- **What each event does to the sessions**, unless it is a call on one of them, or a commit that
is accepted: it closes some. -/
theorem closesOnly_after (hs : s.Registered) (hsession : ∀ c, e.call ≠ .session c)
    (hcommit : ∀ id, e.call = .commit id → s.refusal? e ≠ none) :
    s.host.ClosesOnly (s.after e).host := by
  obtain ⟨now, call⟩ := e
  cases call with
  | session c => exact absurd rfl (hsession c)
  | start id number => exact .refl _
  | find id =>
      rw [after_find]
      cases ht : s.running? id with
      | none => exact .refl _
      | some t =>
          simp only
          split
          · obtain ⟨number, hnumber⟩ := hs.direct ht
            exact Transaction.closesOnly_leftBy_rollback hnumber s.host
          · exact .refl _
  | commit id =>
      have hrefused := hcommit id rfl
      cases ht : s.running? id with
      | none =>
          rw [after_commit, ht]
          exact .refl _
      | some t =>
          obtain ⟨number, hnumber⟩ := hs.direct ht
          rw [Ne, refusal?_commit_eq_none_iff ht hnumber] at hrefused
          rw [after_commit_of_running ht hnumber, if_neg hrefused]
          exact .refl _
  | rollback id =>
      rw [after_rollback]
      cases ht : s.running? id with
      | none => exact .refl _
      | some t =>
          obtain ⟨number, hnumber⟩ := hs.direct ht
          exact Transaction.closesOnly_leftBy_rollback hnumber s.host
  | sweep asOf =>
      rw [after_sweep]
      exact closesOnly_foldl_discarded fun t ht => hs.direct_of_mem_expired ht

/-- An event that ends a transaction closes its session, unless it is a commit that is refused. -/
theorem live_after_of_ends (hs : s.Registered) (ht : s.running? id = some t)
    (hnumber : t.underlying = .direct number) (hends : e.ends t = true)
    (hcommit : e.call = .commit id → s.refusal? e = none) :
    ((s.after e).host.session number).live = false := by
  obtain rfl := hs.id ht
  obtain ⟨now, call⟩ := e
  cases call with
  | session c => cases hends
  | start key k => cases hends
  | find key =>
      obtain ⟨hkey, hexpired⟩ := Bool.and_eq_true_iff.1 hends
      obtain rfl := of_decide_eq_true hkey
      rw [after_find, ht]
      simp only [hexpired, if_true]
      exact Transaction.live_leftBy_rollback hnumber s.host
  | commit key =>
      obtain rfl := of_decide_eq_true hends
      have haccepts := (refusal?_commit_eq_none_iff ht hnumber now).1 (hcommit rfl)
      rw [after_commit_of_running ht hnumber, if_pos haccepts, Host.session_after_close,
        if_pos rfl, Session.close]
  | rollback key =>
      obtain rfl := of_decide_eq_true hends
      rw [after_rollback, ht]
      exact Transaction.live_leftBy_rollback hnumber s.host
  | sweep asOf =>
      rw [after_sweep]
      exact live_foldl_discarded (fun t ht => hs.direct_of_mem_expired ht)
        (List.mem_filter.2 ⟨Table.mem_values_iff.2 ⟨t.id, ht⟩, hends⟩) hnumber

/-- A commit that is accepted finds a transaction whose session can be saved. -/
theorem exists_running_of_commit (hs : s.Registered)
    (haccepted : s.refusal? ⟨now, .commit id⟩ = none) :
    ∃ t number, s.running? id = some t ∧ t.underlying = .direct number ∧
      s.host.accepts (.save number) = true ∧
      (s.after ⟨now, .commit id⟩).host =
        (s.host.after (.save number)).after (.close number) := by
  cases ht : s.running? id with
  | none =>
      rw [refusal?_commit, ht] at haccepted
      cases haccepted
  | some t =>
      obtain ⟨number, hnumber⟩ := hs.direct ht
      have haccepts := (refusal?_commit_eq_none_iff ht hnumber now).1 haccepted
      refine ⟨t, number, rfl, hnumber, haccepts, ?_⟩
      rw [after_commit_of_running ht hnumber, if_pos haccepts]

/-- What an event can do to the host. -/
theorem host_after_cases (hs : s.Registered) (e : Event) :
    (∃ c, e.call = .session c ∧ (s.after e).host = s.host.after c) ∨
      s.host.ClosesOnly (s.after e).host ∨
      ∃ id number, e.call = .commit id ∧ s.host.accepts (.save number) = true ∧
        (s.after e).host = (s.host.after (.save number)).after (.close number) := by
  obtain ⟨now, call⟩ := e
  by_cases hsession : ∀ c, call ≠ .session c
  · by_cases hcommit : ∀ id, call = .commit id → s.refusal? ⟨now, call⟩ ≠ none
    · exact .inr (.inl (closesOnly_after hs hsession hcommit))
    · push Not at hcommit
      obtain ⟨id, rfl, haccepted⟩ := hcommit
      obtain ⟨-, number, -, -, haccepts, hhost⟩ := exists_running_of_commit hs haccepted
      exact .inr (.inr ⟨id, number, rfl, haccepts, hhost⟩)
  · push Not at hsession
    obtain ⟨c, rfl⟩ := hsession
    exact .inl ⟨c, rfl, by rw [after_session]⟩

/-- An event other than a call on a session keeps each session, or leaves it closed. -/
theorem session_after_cases (hs : s.Registered) (hsession : ∀ c, e.call ≠ .session c) (k : Nat) :
    (s.after e).host.session k = s.host.session k ∨
      ((s.after e).host.session k).live = false := by
  rcases host_after_cases hs e with ⟨c, hcall, -⟩ | hcloses | ⟨-, number, -, -, hhost⟩
  · exact absurd hcall (hsession c)
  · exact hcloses.session k
  · rw [hhost, Host.session_after_close]
    by_cases hk : k = number
    · rw [if_pos hk, Session.close]
      exact .inr rfl
    · rw [if_neg hk, Host.session_after_save_of_ne _ _ _ hk]
      exact .inl rfl

theorem length_le_length_after (hs : s.Registered) (e : Event) :
    s.host.sessions.length ≤ (s.after e).host.sessions.length := by
  rcases host_after_cases hs e with ⟨c, -, hhost⟩ | hcloses | ⟨-, number, -, -, hhost⟩
  · rw [hhost]
    exact Host.length_le_length_after _ _
  · exact Nat.le_of_eq hcloses.length.symm
  · rw [hhost]
    exact (Host.length_le_length_after _ _).trans (Host.length_le_length_after _ _)

/-- A session that is closed stays closed. -/
theorem live_after_eq_false (hs : s.Registered) (hlt : number < s.host.sessions.length)
    (hclosed : (s.host.session number).live = false) (e : Event) :
    ((s.after e).host.session number).live = false := by
  rcases host_after_cases hs e with ⟨c, -, hhost⟩ | hcloses | ⟨-, k, -, -, hhost⟩
  · rw [hhost]
    exact Host.live_after_eq_false _ _ _ hlt hclosed
  · exact hcloses.live hclosed
  · rw [hhost]
    exact Host.live_after_eq_false _ _ _ (hlt.trans_le (Host.length_le_length_after _ _))
      (Host.live_after_eq_false _ _ _ hlt hclosed)

/-- An event leaves a saved state as it is, or saves its next version. -/
theorem committed_after_cases (hs : s.Registered) (e : Event) (workspace : String) :
    (s.after e).host.repository.committed workspace = s.host.repository.committed workspace ∨
      ((s.after e).host.repository.committed workspace).version =
        (s.host.repository.committed workspace).version + 1 := by
  rcases host_after_cases hs e with ⟨c, -, hhost⟩ | hcloses | ⟨-, number, -, -, hhost⟩
  · rw [hhost]
    exact s.host.committed_after_cases c workspace
  · exact .inl (by rw [hcloses.repository])
  · rw [hhost, Host.after_close, Host.repository_withSession]
    exact s.host.committed_after_cases _ workspace

/-! ### Runs -/

/-- The host and its transactions that a list of events leaves. -/
def run (s : TransactionHost) (events : List Event) : TransactionHost := events.foldl after s

theorem run_concat (s : TransactionHost) (events : List Event) (e : Event) :
    s.run (events ++ [e]) = (s.run events).after e := by
  rw [run, run, List.foldl_append, List.foldl_cons, List.foldl_nil]

theorem run_append (s : TransactionHost) (events more : List Event) :
    s.run (events ++ more) = (s.run events).run more := List.foldl_append

/-- Sessions are used once they have been opened, and no identifier of a transaction is used
twice. -/
structure Orderly (s : TransactionHost) (events : List Event) : Prop where
  opened : ∀ i : Fin events.length, ∀ number ∈ events[i].call.number?,
    number < (s.run (events.take i)).host.sessions.length
  fresh : (events.filterMap fun e => e.call.started?).Nodup

variable {events more : List Event}

theorem Orderly.of_append (h : Orderly s (events ++ more)) : Orderly s events where
  opened i number hnumber := by
    have hi : i.val < (events ++ more).length := by
      rw [List.length_append]
      omega
    have hopened := h.opened ⟨i, hi⟩ number
    simp only [Fin.getElem_fin, List.getElem_append_left i.isLt,
      List.take_append_of_le_length i.isLt.le] at hopened
    exact hopened hnumber
  fresh := by
    have hfresh := h.fresh
    rw [List.filterMap_append] at hfresh
    exact hfresh.of_append_left

theorem Orderly.lt_length (h : Orderly s (events ++ [e])) (hnumber : e.call.number? = some number) :
    number < (s.run events).host.sessions.length := by
  have hi : events.length < (events ++ [e]).length := by simp
  have hopened := h.opened ⟨events.length, hi⟩ number
  simp only [Fin.getElem_fin, List.getElem_concat_length, List.take_left] at hopened
  exact hopened hnumber

/-- An identifier is started once. -/
theorem Orderly.not_started (h : Orderly s (events ++ e :: more))
    (hid : e.call.started? = some id) : ∀ other ∈ more, other.call.started? ≠ some id := by
  have hfresh := h.fresh
  have hcons : (e :: more).filterMap (fun e => e.call.started?) =
      id :: more.filterMap fun e => e.call.started? := List.filterMap_cons_some hid
  rw [List.filterMap_append, hcons] at hfresh
  have hmore := (List.nodup_cons.1 (hfresh.of_append_right)).1
  exact fun other hother heq => hmore (List.mem_filterMap.2 ⟨other, hother, heq⟩)

theorem running?_start (r : Repository) (timeout : Nat) (id : String) :
    (start r timeout).running? id = none := Std.ExtTreeMap.getElem?_empty

theorem registered_start (r : Repository) (timeout : Nat) : (start r timeout).Registered where
  id ht := nomatch (running?_start r timeout _).symm.trans ht
  direct ht := nomatch (running?_start r timeout _).symm.trans ht

theorem Registered.run (hs : s.Registered) (events : List Event) : (s.run events).Registered := by
  induction events using List.reverseRecOn with
  | nil => exact hs
  | append_singleton events e ih =>
      rw [run_concat]
      exact ih.after e

/-- A transaction that is no longer running is not running again. -/
theorem running?_run_of_none (hs : s.Registered) (hnone : s.running? id = none)
    (hstart : ∀ e ∈ events, e.call.started? ≠ some id) : (s.run events).running? id = none := by
  induction events using List.reverseRecOn with
  | nil => exact hnone
  | append_singleton events e ih =>
      rw [run_concat]
      exact running?_after_of_none (hs.run events)
        (ih fun other hother => hstart other (List.mem_append_left _ hother))
        (hstart e (List.mem_append_right _ (List.mem_singleton_self e)))

theorem length_le_length_run (hs : s.Registered) (events : List Event) :
    s.host.sessions.length ≤ (s.run events).host.sessions.length := by
  induction events using List.reverseRecOn with
  | nil => exact Nat.le_refl _
  | append_singleton events e ih =>
      rw [run_concat]
      exact ih.trans (length_le_length_after (hs.run events) e)

/-- A session that has been used has been opened. -/
theorem Orderly.lt_length_of_mem (hs : s.Registered) (h : Orderly s events) (he : e ∈ events)
    (hnumber : e.call.number? = some number) :
    number < (s.run events).host.sessions.length := by
  obtain ⟨done, rest, rfl⟩ := List.append_of_mem he
  have hdone : Orderly s (done ++ [e]) := by
    rw [← List.singleton_append, ← List.append_assoc] at h
    exact h.of_append
  rw [run_append]
  exact (hdone.lt_length hnumber).trans_le (length_le_length_run (hs.run done) _)

/-- An identifier that has been started is not started again. -/
theorem Orderly.not_restarted (h : Orderly s (events ++ [e])) {other : Event}
    (hother : other ∈ events) (hid : other.call.started? = some id) :
    e.call.started? ≠ some id := by
  obtain ⟨done, rest, rfl⟩ := List.append_of_mem hother
  rw [List.append_assoc, List.cons_append] at h
  exact h.not_started hid e (List.mem_append_right _ (List.mem_singleton_self e))

/-- What is running has been started. -/
theorem exists_start_of_running? (hs : s.Registered) (hblank : s.running? id = none)
    (ht : (s.run events).running? id = some t) :
    ∃ e ∈ events, ∃ number, e.call = .start id number ∧ t.underlying = .direct number := by
  induction events using List.reverseRecOn generalizing t with
  | nil =>
      rw [run, List.foldl_nil, hblank] at ht
      cases ht
  | append_singleton events e ih =>
      rw [run_concat] at ht
      rcases running?_after_cases (hs.run events) ht with
        ⟨number, hcall, hnumber⟩ | ⟨before, hbefore, rfl⟩
      · exact ⟨e, List.mem_append_right _ (List.mem_singleton_self e), number, hcall, hnumber⟩
      · obtain ⟨e, he, number, hcall, hnumber⟩ := ih hbefore
        exact ⟨e, List.mem_append_left _ he, number, hcall, by rw [underlying_kept, hnumber]⟩

/-- The identifier of a transaction that is running is not started again. -/
theorem Orderly.not_started_of_running? (hs : s.Registered) (hblank : s.running? id = none)
    (h : Orderly s (events ++ more)) (ht : (s.run events).running? id = some t) :
    ∀ other ∈ more, other.call.started? ≠ some id := by
  obtain ⟨e, he, number, hcall, -⟩ := exists_start_of_running? hs hblank ht
  obtain ⟨done, rest, rfl⟩ := List.append_of_mem he
  rw [List.append_assoc, List.cons_append] at h
  exact fun other hother => h.not_started (congrArg Call.started? hcall) other
    (List.mem_append_right _ hother)

/-- A transaction that an event has ended is not running any more. -/
theorem running?_run_of_ends (hs : s.Registered) (hblank : s.running? id = none)
    (h : Orderly s (events ++ e :: more)) (ht : (s.run events).running? id = some t)
    (hends : e.ends t = true) : (s.run (events ++ e :: more)).running? id = none := by
  have hregistered := hs.run events
  have hstart := h.not_started_of_running? hs hblank ht
  rw [run_append, run, List.foldl_cons, ← run]
  refine running?_run_of_none (hregistered.after e) ?_ fun other hother =>
    hstart other (List.mem_cons_of_mem e hother)
  rw [running?_after_of_some hregistered ht (hstart e List.mem_cons_self), if_pos hends]

/-- A saved state is as it was, or is of a later version. -/
theorem committed_run_cases (hs : s.Registered) (events : List Event) (workspace : String) :
    (s.run events).host.repository.committed workspace = s.host.repository.committed workspace ∨
      (s.host.repository.committed workspace).version <
        ((s.run events).host.repository.committed workspace).version := by
  induction events using List.reverseRecOn with
  | nil => exact .inl rfl
  | append_singleton events e ih =>
      rw [run_concat]
      exact Host.saved_trans ih (committed_after_cases (hs.run events) e workspace)

end LinkedStore.TransactionHost
