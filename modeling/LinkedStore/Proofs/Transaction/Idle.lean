import LinkedStore.Proofs.Transaction.Expiry

/-!
# Idle transactions

A transaction is used when it is started, and by every look-up that finds it.  As long as it is left
alone from then on, it is found up to the moment at which the timeout has passed, and not from that
moment on, whatever is done to other transactions meanwhile.  The first look-up or sweep from that
moment on takes it out of the registry for good, and its session is closed without what it has
staged.  So a sweep leaves no transaction that has expired, and counts those that it takes out.

## Main definitions

* `TransactionHost.uses` : an event starts a transaction, or finds it.
* `TransactionHost.Idle` : a transaction is left alone since an event has used it.
* `TransactionHost.Discards` : an event takes a transaction out for good, and drops its changes.
* `TransactionHost.Sweeps` : a sweep leaves nothing that has expired.
* `TransactionHost.ExpiresIdle` : what becomes of an idle transaction.

## Main statements

* `TransactionHost.running?_run_of_idle` : whether an idle transaction is registered.
* `TransactionHost.size_foldl_discarded` : how many transactions are left of those registered.
* `TransactionHost.expiresIdle_of_orderly` : **a transaction expires when it has been idle for the
  timeout**, not before and for good.
-/

namespace LinkedStore

namespace TransactionHost

open TransactionRegistry

variable {s : TransactionHost} {e use : Event} {t : Transaction} {id : String} {number : Nat}
  {now : Instant} {events earlier idle more : List Event}

/-! ### What is discarded -/

/-- The registry without some of its transactions is smaller by their number. -/
theorem size_foldl_discarded {ts : List Transaction} (hdistinct : (ts.map Transaction.id).Nodup)
    (hts : ∀ t ∈ ts, s.running? t.id = some t) :
    (ts.foldl discarded s).registry.size + ts.length = s.registry.size := by
  induction ts generalizing s with
  | nil => rfl
  | cons t ts ih =>
      obtain ⟨hfirst, hrest⟩ := List.forall_mem_cons.1 hts
      obtain ⟨hnotMem, hdistinct⟩ := List.nodup_cons.1 hdistinct
      have hleft := ih (s := s.discarded t) hdistinct fun other hother => by
        have hne : t.id ≠ other.id := fun heq => hnotMem (heq ▸ List.mem_map_of_mem hother)
        rw [discarded, running?_release, if_neg hne, hrest other hother]
      have hsize : (s.discarded t).registry.size + 1 = s.registry.size :=
        Table.size_erase_add_one hfirst
      rw [List.foldl_cons, List.length_cons]
      omega

/-! ### Sweeps -/

/-- A sweep leaves nothing that has expired, takes nothing else out, and returns how many
transactions it takes out. -/
structure Sweeps (s : TransactionHost) (now : Instant) (count : Nat) (s' : TransactionHost) :
    Prop where
  returns : (TransactionRegistry.sweep now).run s = .ok count s'
  leaves : s.after ⟨now, .sweep now⟩ = s'
  left : ∀ id t, s'.running? id = some t ↔ s.running? id = some t ∧ t.isExpired now = false
  size : s'.registry.size + count = s.registry.size

theorem sweeps (hs : s.Registered) (now : Instant) : ∃ count s', s.Sweeps now count s' := by
  have hrun : (TransactionRegistry.sweep now).run s =
      .ok (s.expired now).length ((s.expired now).foldl discarded s) := by
    rw [TransactionRegistry.sweep, EStateM.run_bind, EStateM.run_get]
    simp only [EStateM.run_bind, run_discardAll]
    rfl
  refine ⟨_, _, hrun, after_sweep s now now, fun id t => ?_, size_foldl_discarded ?_ ?_⟩
  · rw [← after_sweep s now now, running?_after_sweep hs, Option.bind_eq_some_iff]
    constructor
    · rintro ⟨t, ht, hleft⟩
      split at hleft
      · cases hleft
      · rename_i hexpired
        exact Option.some.inj hleft ▸ ⟨ht, Bool.eq_false_iff.2 hexpired⟩
    · rintro ⟨ht, hexpired⟩
      exact ⟨t, ht, by rw [hexpired, if_neg Bool.false_ne_true]⟩
  · have hdistinct : (s.registry.running.values.map Transaction.id).Nodup :=
      Table.nodup_map_values fun _ _ ht => hs.id ht
    exact hdistinct.sublist (List.Sublist.map _ List.filter_sublist)
  · intro t ht
    obtain ⟨id, hid⟩ := Table.mem_values_iff.1 (List.mem_filter.1 ht).1
    obtain rfl := hs.id hid
    exact hid

/-! ### Uses -/

/-- Whether an event uses a transaction: it starts it, or looks it up and is not refused. -/
def uses (s : TransactionHost) (id : String) (e : Event) : Bool :=
  match e.call with
  | .start key _ => key == id
  | .find key => key == id && (s.refusal? e).isNone
  | _ => false

/-- Whether an event comes by a transaction: it looks it up, or sweeps. -/
def Event.comesBy (id : String) (e : Event) : Bool :=
  match e.call with
  | .find key => key == id
  | .sweep _ => true
  | _ => false

/-- Whether an event commits a transaction or rolls it back. -/
def Event.settles (id : String) (e : Event) : Bool :=
  match e.call with
  | .commit key | .rollback key => key == id
  | _ => false

/-- Whether a sweep, if the event is one, is as of the moment at which it is made. -/
def Event.sweepsNow (e : Event) : Bool :=
  match e.call with
  | .sweep asOf => asOf == e.now
  | _ => true

/-- The timeout never changes. -/
theorem timeout_after (s : TransactionHost) (e : Event) :
    (s.after e).registry.timeout = s.registry.timeout := by
  obtain ⟨now, call⟩ := e
  cases call with
  | session c => rw [after_session]
  | start id number => rfl
  | find id =>
      rw [after_find]
      split
      · rfl
      · split <;> rfl
  | commit id =>
      rw [after_commit]
      split <;> rfl
  | rollback id =>
      rw [after_rollback]
      split <;> rfl
  | sweep asOf =>
      rw [after_sweep]
      generalize s.expired asOf = ts
      induction ts generalizing s with
      | nil => rfl
      | cons t ts ih => exact ih (s.discarded t)

theorem timeout_run (s : TransactionHost) (events : List Event) :
    (s.run events).registry.timeout = s.registry.timeout := by
  induction events using List.reverseRecOn with
  | nil => rfl
  | append_singleton events e ih => rw [run_concat, timeout_after, ih]

/-- A transaction that has been used expires when the timeout has passed. -/
theorem running?_after_uses (hs : s.Registered) (h : s.uses id e = true) :
    ∃ number, (s.after e).running? id =
      some ⟨id, .direct number, e.now.later s.registry.timeout⟩ := by
  obtain ⟨now, call⟩ := e
  cases call with
  | start key number =>
      obtain rfl : key = id := by simpa [uses] using h
      exact ⟨number, by rw [running?_after_start, if_pos rfl, expiryFrom]⟩
  | find key =>
      obtain ⟨rfl, hfound⟩ : key = id ∧ s.refusal? ⟨now, .find key⟩ = none := by
        simpa [uses] using h
      rw [refusal?_find] at hfound
      rw [running?_after_find hs, if_pos rfl]
      cases ht : s.running? key with
      | none => simp [ht] at hfound
      | some t =>
          obtain ⟨number, hnumber⟩ := hs.direct ht
          refine ⟨number, ?_⟩
          simp only [ht] at hfound
          rw [Option.bind_some, if_neg fun hexpired => by simp [hexpired] at hfound, renewed,
            expiryFrom, ← hnumber, hs.id ht]
  | _ => cases h

/-! ### Idle transactions -/

/-- A transaction is left alone since an event has used it: no later event uses it, commits it or
rolls it back. -/
structure Idle (s : TransactionHost) (id : String) (earlier : List Event) (use : Event)
    (idle : List Event) : Prop where
  used : (s.run earlier).uses id use = true
  unused : ∀ i : Fin idle.length,
    (s.run (earlier ++ use :: idle.take i.val)).uses id (idle.get i) = false
  unsettled : ∀ e ∈ idle, e.settles id = false

/-- Whether an event comes by a transaction from a moment on. -/
def Event.comesFrom (id : String) (due : Instant) (e : Event) : Bool :=
  e.comesBy id && decide (due ≤ e.now)

theorem Idle.of_concat (h : Idle s id earlier use (idle ++ [e])) :
    Idle s id earlier use idle where
  used := h.used
  unused i := by
    have hi : i.val < (idle ++ [e]).length := by
      rw [List.length_append]
      omega
    have hunused := h.unused ⟨i, hi⟩
    simp only [List.get_eq_getElem, List.getElem_append_left i.isLt,
      List.take_append_of_le_length i.isLt.le] at hunused
    exact hunused
  unsettled other hother := h.unsettled other (List.mem_append_left _ hother)

theorem Idle.concat (h : Idle s id earlier use idle)
    (hunused : (s.run (earlier ++ use :: idle)).uses id e = false)
    (hunsettled : e.settles id = false) : Idle s id earlier use (idle ++ [e]) where
  used := h.used
  unused i := by
    by_cases hi : i.val < idle.length
    · have hbefore := h.unused ⟨i, hi⟩
      simp only [List.get_eq_getElem, List.getElem_append_left hi,
        List.take_append_of_le_length hi.le]
      exact hbefore
    · have hlt : i.val < idle.length + 1 := by simpa using i.isLt
      have heq : i.val = idle.length := by omega
      simp only [List.get_eq_getElem, heq, List.getElem_concat_length, List.take_left]
      exact hunused
  unsettled other hother := by
    rcases List.mem_append.1 hother with hother | hother
    · exact h.unsettled other hother
    · exact List.mem_singleton.1 hother ▸ hunsettled

theorem Idle.unused_last (h : Idle s id earlier use (idle ++ [e])) :
    (s.run (earlier ++ use :: idle)).uses id e = false := by
  have hi : idle.length < (idle ++ [e]).length := by simp
  have hunused := h.unused ⟨idle.length, hi⟩
  simp only [List.get_eq_getElem, List.getElem_concat_length, List.take_left] at hunused
  exact hunused

theorem started?_ne_of_unused (hunused : s.uses id e = false) : e.call.started? ≠ some id := by
  intro hstarted
  obtain ⟨now, call⟩ := e
  cases call with
  | start key number => simp [uses, Option.some.inj hstarted] at hunused
  | _ => cases hstarted

/-- What an event that does not use a transaction makes of it: it takes it out if it comes by when
it has expired. -/
theorem running?_after_of_unused (hs : s.Registered) (ht : s.running? id = some t)
    (hunused : s.uses id e = false) (hsettles : e.settles id = false)
    (hsweep : e.sweepsNow = true) :
    (s.after e).running? id = if e.comesFrom id t.expires then none else some t := by
  obtain rfl := hs.id ht
  rw [running?_after_of_some hs ht (started?_ne_of_unused hunused)]
  obtain ⟨now, call⟩ := e
  cases call with
  | session c => rfl
  | start key number => rfl
  | find key =>
      by_cases hkey : key = t.id
      · subst hkey
        -- A look-up that finds the transaction would use it.
        cases hexpired : t.isExpired now with
        | true =>
            simp [Event.ends, Event.comesFrom, Event.comesBy, ← Transaction.isExpired_iff, hexpired]
        | false => simp [uses, refusal?_find, ht, hexpired] at hunused
      · simp [Event.ends, Event.comesFrom, Event.comesBy, kept, hkey]
  | commit key | rollback key =>
      have hkey : key ≠ t.id := by simpa [Event.settles] using hsettles
      simp [Event.ends, Event.comesFrom, Event.comesBy, kept, hkey]
  | sweep asOf =>
      obtain rfl : asOf = now := by simpa [Event.sweepsNow] using hsweep
      simp [Event.ends, Event.comesFrom, Event.comesBy, kept, Transaction.isExpired]

/-- **Whether an idle transaction is registered**: it is, until an event comes by from the moment on
at which the timeout has passed. -/
theorem running?_run_of_idle (hs : s.Registered) (hblank : s.running? id = none)
    (h : Orderly s (earlier ++ use :: idle))
    (hsweep : ∀ e ∈ earlier ++ use :: idle, e.sweepsNow = true)
    (hidle : Idle s id earlier use idle) :
    ∃ now number, ⟨now, .start id number⟩ ∈ earlier ++ [use] ∧
      (s.run (earlier ++ use :: idle)).running? id =
        if idle.any (·.comesFrom id (use.now.later s.registry.timeout)) then none
        else some ⟨id, .direct number, use.now.later s.registry.timeout⟩ := by
  obtain ⟨number, hused⟩ := running?_after_uses (hs.run earlier) hidle.used
  rw [timeout_run, ← run_concat] at hused
  obtain ⟨start, hstart, number', hcall, hnumber⟩ := exists_start_of_running? hs hblank hused
  obtain rfl := Access.direct.inj hnumber
  refine ⟨start.now, number, hcall ▸ hstart, ?_⟩
  -- From the last use on the expiry stays what it is.
  induction idle using List.reverseRecOn with
  | nil => exact hused
  | append_singleton idle e ih =>
      rw [← List.cons_append, ← List.append_assoc] at h hsweep ⊢
      have hlast : e ∈ earlier ++ use :: idle ++ [e] :=
        List.mem_append_right _ (List.mem_singleton_self e)
      have hbefore := ih h.of_append
        (fun other hother => hsweep other (List.mem_append_left _ hother)) hidle.of_concat
      rw [run_concat, List.any_append, List.any_cons, List.any_nil, Bool.or_false]
      cases hlapsed : idle.any (·.comesFrom id (use.now.later s.registry.timeout)) with
      | true =>
          rw [hlapsed, if_pos rfl] at hbefore
          rw [Bool.true_or, if_pos rfl]
          exact running?_after_of_none (hs.run _) hbefore (started?_ne_of_unused hidle.unused_last)
      | false =>
          rw [hlapsed, if_neg Bool.false_ne_true] at hbefore
          rw [Bool.false_or]
          exact running?_after_of_unused (hs.run _) hbefore hidle.unused_last
            (hidle.unsettled e (List.mem_append_right _ (List.mem_singleton_self e)))
            (hsweep e hlast)

/-- A transaction that has been started, and neither committed nor rolled back, has been left alone
since its last use. -/
theorem exists_idle (hstart : ∃ e ∈ events, e.call.started? = some id)
    (hunsettled : ∀ e ∈ events, e.settles id = false) :
    ∃ earlier use idle, events = earlier ++ use :: idle ∧ Idle s id earlier use idle := by
  induction events using List.reverseRecOn with
  | nil =>
      obtain ⟨e, he, -⟩ := hstart
      cases he
  | append_singleton events e ih =>
      cases huses : (s.run events).uses id e with
      | true => exact ⟨events, e, [], rfl, huses, fun i => i.elim0, List.forall_mem_nil _⟩
      | false =>
          have hbefore : ∃ other ∈ events, other.call.started? = some id := by
            obtain ⟨other, hother, hstarted⟩ := hstart
            rcases List.mem_append.1 hother with hother | hother
            · exact ⟨other, hother, hstarted⟩
            · obtain rfl := List.mem_singleton.1 hother
              exact absurd hstarted (started?_ne_of_unused huses)
          obtain ⟨earlier, use, idle, rfl, hidle⟩ := ih hbefore fun other hother =>
            hunsettled other (List.mem_append_left _ hother)
          refine ⟨earlier, use, idle ++ [e], by simp, hidle.concat huses ?_⟩
          exact hunsettled e (List.mem_append_right _ (List.mem_singleton_self e))

/-! ### What becomes of idle transactions -/

/-- A session that is closed stays closed. -/
theorem live_run_eq_false (hs : s.Registered) (hlt : number < s.host.sessions.length)
    (hclosed : (s.host.session number).live = false) (events : List Event) :
    ((s.run events).host.session number).live = false := by
  induction events using List.reverseRecOn with
  | nil => exact hclosed
  | append_singleton events e ih =>
      rw [run_concat]
      exact live_after_eq_false (hs.run events) (hlt.trans_le (length_le_length_run hs events)) ih e

/-- An event takes a transaction over a session out for good: from then on it is not registered and
the session is closed.  What the session has staged is dropped, and nothing is saved. -/
structure Discards (s : TransactionHost) (e : Event) (id : String) (number : Nat)
    (more : List Event) : Prop where
  registered : (s.running? id).isSome = true
  missing : e.call = .find id → s.refusal? e = some (.transactionMissing id)
  unsaved : (s.after e).host.repository = s.host.repository
  dropped : (s.host.session number).live = true → ((s.after e).host.session number).staged = none
  gone : ∀ later, later <+: more → (s.run (e :: later)).running? id = none
  closed : ∀ later, later <+: more → ((s.run (e :: later)).host.session number).live = false

/-- What becomes of a transaction that is idle and due at a moment, at the next event. -/
structure ExpiresIdle (s : TransactionHost) (id : String) (number : Nat) (due : Instant)
    (idle : List Event) (e : Event) (more : List Event) : Prop where
  /-- It is registered until an event comes by from that moment on. -/
  running : s.running? id =
    if idle.any (·.comesFrom id due) then none else some ⟨id, .direct number, due⟩
  /-- It is found before that moment, and not from then on. -/
  obtainable : e.call = .find id → (s.refusal? e = none ↔ ¬due ≤ e.now)
  /-- The first event to come by from that moment on takes it out. -/
  discarded : e.comesFrom id due = true → (∀ other ∈ idle, other.comesFrom id due = false) →
    s.Discards e id number more
  swept : e.call = .sweep e.now → ∃ count s', s.Sweeps e.now count s'

/-- A transaction that is taken out no sooner than it expires is found until then. -/
theorem refusal?_find_eq_none_iff {lapsed : Bool}
    (hrunning : s.running? id = if lapsed then none else some t)
    (hlapsed : lapsed = true → t.expires ≤ now) :
    s.refusal? ⟨now, .find id⟩ = none ↔ ¬t.expires ≤ now := by
  rw [refusal?_find, hrunning]
  cases lapsed with
  | true => exact iff_of_false (Option.some_ne_none _) (not_not_intro (hlapsed rfl))
  | false => simp [Transaction.isExpired]

/-- A transaction that an event comes by after its expiry is taken out and rolled back. -/
theorem ends_of_comesFrom (hsweep : e.sweepsNow = true)
    (hcomes : e.comesFrom t.id t.expires = true) : e.ends t = true := by
  obtain ⟨now, call⟩ := e
  cases call with
  | find key =>
      simpa [Event.comesFrom, Event.comesBy, Event.ends, Transaction.isExpired] using hcomes
  | sweep asOf =>
      obtain rfl : asOf = now := by simpa [Event.sweepsNow] using hsweep
      simpa [Event.comesFrom, Event.comesBy, Event.ends, Transaction.isExpired] using hcomes
  | _ => cases hcomes

theorem session_after_of_comesFrom (hs : s.Registered) (ht : s.running? id = some t)
    (hnumber : t.underlying = .direct number) (hsweep : e.sweepsNow = true)
    (hcomes : e.comesFrom id t.expires = true) :
    (s.after e).host.session number =
      if (s.host.session number).live = true then (s.host.session number).rolledBack
      else s.host.session number := by
  obtain rfl := hs.id ht
  have hends := ends_of_comesFrom hsweep hcomes
  obtain ⟨now, call⟩ := e
  cases call with
  | find key =>
      obtain ⟨hkey, hexpired⟩ := Bool.and_eq_true_iff.1 hends
      obtain rfl := of_decide_eq_true hkey
      rw [after_find, ht]
      simp only [hexpired, if_true]
      simp only [discarded, Transaction.session_leftBy_rollback hnumber, true_and]
  | sweep asOf =>
      have hexpired : t ∈ s.expired asOf :=
        List.mem_filter.2 ⟨Table.mem_values_iff.2 ⟨t.id, ht⟩, hends⟩
      rw [after_sweep, session_foldl_discarded fun t ht => hs.direct_of_mem_expired ht]
      exact if_congr (and_iff_right ⟨t, hexpired, hnumber⟩) rfl rfl
  | _ => cases hcomes

theorem discards_of_comesFrom (hs : s.Registered) (hblank : s.running? id = none)
    (h : Orderly s (events ++ e :: more)) (ht : (s.run events).running? id = some t)
    (hnumber : t.underlying = .direct number) (hsweep : e.sweepsNow = true)
    (hcomes : e.comesFrom id t.expires = true) :
    (s.run events).Discards e id number more := by
  have hregistered := hs.run events
  have hid := hregistered.id ht
  have hends : e.ends t = true := ends_of_comesFrom hsweep (hid ▸ hcomes)
  have hsession := session_after_of_comesFrom hregistered ht hnumber hsweep hcomes
  constructor
  case registered => rw [ht, Option.isSome_some]
  case missing =>
    intro hcall
    obtain ⟨now, call⟩ := e
    obtain rfl : call = .find id := hcall
    obtain ⟨-, hexpired⟩ := Bool.and_eq_true_iff.1 hends
    rw [refusal?_find, ht]
    simp only [hexpired, if_true]
  case unsaved =>
    refine (closesOnly_after hregistered ?_ ?_).repository
    · intro c hcall
      simp [Event.comesFrom, Event.comesBy, hcall] at hcomes
    · intro key hcall
      simp [Event.comesFrom, Event.comesBy, hcall] at hcomes
  case dropped =>
    intro hlive
    rw [hsession, if_pos hlive, Session.rolledBack]
  case gone =>
    rintro later ⟨rest, rfl⟩
    rw [← run_append]
    have hlater : Orderly s (events ++ e :: later ++ rest) := by
      rwa [List.append_assoc, List.cons_append]
    exact running?_run_of_ends hs hblank hlater.of_append ht hends
  case closed =>
    rintro later -
    obtain ⟨start, hstart, number', hcall, hdirect⟩ := exists_start_of_running? hs hblank ht
    obtain rfl := Access.direct.inj (hnumber.symm.trans hdirect)
    have hlt := h.of_append.lt_length_of_mem hs hstart (congrArg Call.number? hcall)
    have hclosed : (((s.run events).after e).host.session number).live = false := by
      rw [hsession]
      split
      · rfl
      · rename_i hlive
        exact Bool.eq_false_iff.2 hlive
    rw [run, List.foldl_cons, ← run]
    exact live_run_eq_false (hregistered.after e)
      (hlt.trans_le (length_le_length_after hregistered e)) hclosed later

/-- An identifier is started over one session. -/
theorem Orderly.number_unique (h : Orderly s events) {now' : Instant} {number' : Nat}
    (hstart : ⟨now, .start id number⟩ ∈ events) (hstart' : ⟨now', .start id number'⟩ ∈ events) :
    number = number' := by
  obtain ⟨done, rest, rfl⟩ := List.append_of_mem hstart
  rcases List.mem_append.1 hstart' with hdone | hrest
  · obtain ⟨first, rest', rfl⟩ := List.append_of_mem hdone
    rw [List.append_assoc, List.cons_append] at h
    exact absurd rfl (h.not_started rfl _ (List.mem_append_right _ List.mem_cons_self))
  · rcases List.mem_cons.1 hrest with heq | hrest
    · injection heq with _ hcall
      injection hcall with _ hnumber
      exact hnumber.symm
    · exact absurd rfl (h.not_started rfl _ hrest)

/-- **A transaction expires when it has been idle for the timeout**, not before and for good: the
first look-up or sweep from that moment on takes it out, and drops its changes. -/
theorem expiresIdle_of_orderly {r : Repository} {timeout : Nat}
    (h : Orderly (.start r timeout) (events ++ e :: more)) (hclock : Clocked (events ++ e :: more))
    (hsweep : ∀ other ∈ events ++ e :: more, other.sweepsNow = true)
    (hstart : ⟨now, .start id number⟩ ∈ events)
    (hunsettled : ∀ other ∈ events, other.settles id = false) :
    ∃ earlier use idle, events = earlier ++ use :: idle ∧
      Idle (.start r timeout) id earlier use idle ∧
      ExpiresIdle ((start r timeout).run events) id number
        (use.now.later (min timeout maxTimeout : Nat)) idle e more := by
  obtain ⟨earlier, use, idle, rfl, hidle⟩ :=
    exists_idle (s := .start r timeout) ⟨_, hstart, rfl⟩ hunsettled
  have hs := registered_start r timeout
  have hregistered := hs.run (earlier ++ use :: idle)
  have hlast : e.sweepsNow = true := hsweep e (List.mem_append_right _ List.mem_cons_self)
  obtain ⟨now', number', hstart', hrunning⟩ :=
    running?_run_of_idle hs (running?_start r timeout id) h.of_append
      (fun other hother => hsweep other (List.mem_append_left _ hother)) hidle
  have hmem : ⟨now', .start id number'⟩ ∈ earlier ++ use :: idle := by
    rw [List.append_cons]
    exact List.mem_append_left idle hstart'
  obtain rfl := h.of_append.number_unique hstart hmem
  refine ⟨earlier, use, idle, rfl, hidle, ?_⟩
  constructor
  case running => exact hrunning
  case obtainable =>
    intro hcall
    obtain ⟨moment, call⟩ := e
    obtain rfl : call = .find id := hcall
    refine refusal?_find_eq_none_iff hrunning fun hlapsed => ?_
    -- What came by before was due already, and the clock has not run back since.
    obtain ⟨other, hother, hcomes⟩ := List.any_eq_true.1 hlapsed
    have hdue := of_decide_eq_true (Bool.and_eq_true_iff.1 hcomes).2
    exact Instant.le_trans hdue ((List.pairwise_append.1 hclock).2.2 other
      (List.mem_append_right _ (List.mem_cons_of_mem use hother)) _ List.mem_cons_self)
  case discarded =>
    intro hcomes hfirst
    have hnone : idle.any (·.comesFrom id (use.now.later (start r timeout).registry.timeout)) =
        false := List.any_eq_false.2 fun other hother => Bool.not_eq_true _ ▸ hfirst other hother
    rw [hnone, if_neg Bool.false_ne_true] at hrunning
    exact discards_of_comesFrom hs (running?_start r timeout id) h hrunning rfl hlast hcomes
  case swept => exact fun _ => sweeps hregistered e.now

/-- A call some seconds after the start of 1970. -/
def atSecond (second : Int) (call : Call) : Event := ⟨Instant.epoch.later second, call⟩

/-- A sweep as of the moment at which it is made. -/
def sweepAt (second : Int) : Event := atSecond second (.sweep (Instant.epoch.later second))

/-- A run in which a transaction stages a change, is looked up twice, and is swept just before the
timeout has passed. -/
def staging : List Event :=
  [atSecond 0 (.session (.opening "default")), atSecond 0 (.start "tx" 0),
    atSecond 1 (.session (.mutate 0 ⟨toString, .epoch⟩ (.createContainer "/a"))),
    atSecond 59 (.find "tx"), atSecond 118 (.find "tx"), sweepAt 177]

/-- A sweep at the moment at which the timeout has passed takes the transaction out. -/
theorem expiresIdle_of_orderly_staging :
    let s := (start (.start "root") 60).run staging
    (∃ earlier use idle, staging = earlier ++ use :: idle ∧
      Idle (start (.start "root") 60) "tx" earlier use idle ∧
      s.ExpiresIdle "tx" 0 (use.now.later 60) idle (sweepAt 178) [atSecond 178 (.find "tx")]) ∧
    s.running? "tx" = some ⟨"tx", .direct 0, Instant.epoch.later 178⟩ ∧
    (s.host.session 0).live = true ∧ (s.host.session 0).staged.isSome = true ∧
    s.registry.size = 1 ∧ (s.after (sweepAt 178)).registry.size = 0 := by
  intro s
  have hstart : atSecond 0 (.start "tx" 0) ∈ staging := .tail _ (.head _)
  refine ⟨expiresIdle_of_orderly ⟨?_, ?_⟩ ?_ ?_ hstart ?_, ?_, ?_, ?_, ?_, ?_⟩
  all_goals decide +kernel

end TransactionHost

end LinkedStore
