import LinkedStore.Proofs.Host.Run
import LinkedStore.Transaction.Registry

/-!
# Events of a host with transactions

The sessions of a host are used as before, while transactions are started over them, looked up,
committed, rolled back and swept.  An event is such a call at a moment of the clock.  What it leaves
and how it is refused is one equation for each call.

## Main definitions

* `TransactionHost.Call`, `TransactionHost.Event` : the calls, and when they are made.
* `TransactionHost.after`, `TransactionHost.refusal?` : what an event leaves, and its refusal.
* `TransactionHost.Registered` : transactions are found under their identifiers.
* `Host.ClosesOnly` : a host differs from another one by sessions that are closed.

## Main statements

* `Transaction.leftBy_commit`, `Transaction.session_leftBy_rollback` : what becomes of the session
  of a transaction.
* `TransactionHost.after_find`, `TransactionHost.after_commit`, `TransactionHost.after_sweep` and
  their like : what each event leaves.
* `TransactionHost.refusal?_find`, `TransactionHost.refusal?_commit` and their like : which events
  are refused.
-/

namespace LinkedStore

/-! ### Refusals -/

/-- The error that a program is refused with. -/
def refusalBy {α σ : Type} (program : EStateM Error σ α) (s : σ) : Option Error :=
  match program.run s with
  | .ok _ _ => none
  | .error e _ => some e

theorem refusalBy_map {α β σ : Type} (f : α → β) (program : EStateM Error σ α) (s : σ) :
    refusalBy (f <$> program) s = refusalBy program s := by
  rw [refusalBy, refusalBy, map_eq_pure_bind, EStateM.run_bind]
  cases program.run s <;> rfl

namespace Host

/-- The session that a call is on. -/
def Call.number? : Call → Option Nat
  | opening _ => none
  | mutate number _ _ | save number | refresh number _ | close number => some number

variable {h h' h'' : Host} {number : Nat}

/-- A call that is on no session, or on another one, leaves a session alone. -/
theorem session_after_of_ne (hnumber : number < h.sessions.length) {c : Call}
    (hc : c.number? ≠ some number) : (h.after c).session number = h.session number := by
  rcases h.session_after_cases number c hnumber with
    heq | ⟨d, m, rfl, -⟩ | ⟨rfl | ⟨keep, rfl⟩, -⟩ | ⟨rfl, -⟩
  · exact heq
  all_goals exact absurd rfl hc

theorem refusalBy_eq_none_iff {c : Call} :
    refusalBy c.perform h = none ↔ h.accepts c = true := by
  rw [refusalBy, accepts]
  cases c.perform.run h <;> simp

/-- Two calls in a row: the second is made if the first is accepted. -/
theorem leftBy_seq (h : Host) (c c' : Call) :
    leftBy (c.perform >>= fun _ => c'.perform) h =
      if h.accepts c then (h.after c).after c' else h.after c := by
  rw [accepts, after, after, leftBy, leftBy, leftBy, EStateM.run_bind]
  cases c.perform.run h <;> rfl

theorem refusalBy_seq (h : Host) (c c' : Call) :
    refusalBy (c.perform >>= fun _ => c'.perform) h =
      if h.accepts c then refusalBy c'.perform (h.after c) else refusalBy c.perform h := by
  rw [accepts, after, leftBy, refusalBy, refusalBy, refusalBy, EStateM.run_bind]
  cases c.perform.run h <;> rfl

/-- A save is refused since the workspace has been saved meanwhile, unless the session is closed. -/
theorem refusalBy_save_eq_stale_iff (h : Host) (number : Nat) :
    refusalBy (Call.save number).perform h =
        some (.repository (.staleChanges (h.session number).workspace)) ↔
      (h.session number).live = true ∧ h.accepts (.save number) = false := by
  simp only [refusalBy, accepts, Call.perform, EStateM.run, saveSession, Session.save,
    Session.refusal]
  cases (h.session number).live with
  | false => simp
  | true =>
      cases (h.session number).staged with
      | none => simp
      | some w =>
          by_cases hversion :
              (h.repository.committed (h.session number).workspace).version = w.version
          · simp [hversion]
          · simp [hversion]

/-! ### Hosts that differ by closed sessions -/

/-- The second host is the first one, but for sessions that are closed in it. -/
structure ClosesOnly (h h' : Host) : Prop where
  repository : h'.repository = h.repository
  length : h'.sessions.length = h.sessions.length
  session : ∀ k, h'.session k = h.session k ∨ (h'.session k).live = false

theorem ClosesOnly.refl (h : Host) : h.ClosesOnly h := ⟨rfl, rfl, fun _ => .inl rfl⟩

theorem ClosesOnly.trans (hfirst : h.ClosesOnly h') (hsecond : h'.ClosesOnly h'') :
    h.ClosesOnly h'' where
  repository := hsecond.repository.trans hfirst.repository
  length := hsecond.length.trans hfirst.length
  session k := by
    rcases hsecond.session k with heq | hclosed
    · rw [heq]
      exact hfirst.session k
    · exact .inr hclosed

/-- A session that is closed stays closed. -/
theorem ClosesOnly.live (hcloses : h.ClosesOnly h') (hclosed : (h.session number).live = false) :
    (h'.session number).live = false := by
  rcases hcloses.session number with heq | hclosed
  · rw [heq, hclosed]
  · exact hclosed

end Host

/-! ### What becomes of the session of a transaction -/

/-- The session as a rollback leaves it: what it has staged is dropped, and it is closed. -/
def Session.rolledBack (s : Session) : Session := { s with staged := none, live := false }

namespace Transaction

variable {t : Transaction} {number : Nat}

theorem commit_eq (ht : t.underlying = .direct number) :
    t.commit = (Host.Call.save number).perform >>= fun _ => (Host.Call.close number).perform := by
  rw [commit, ht]
  rfl

theorem rollback_eq (ht : t.underlying = .direct number) :
    t.rollback =
      (Host.Call.refresh number false).perform >>= fun _ => (Host.Call.close number).perform := by
  rw [rollback, ht]
  rfl

/-- A commit is refused as the save of the session is. -/
theorem refusalBy_commit (ht : t.underlying = .direct number) (h : Host) :
    refusalBy t.commit h = refusalBy (Host.Call.save number).perform h := by
  rw [commit_eq ht, Host.refusalBy_seq]
  split
  · rename_i haccepts
    rw [Host.refusalBy_eq_none_iff.2 haccepts, Host.refusalBy_eq_none_iff]
    exact Host.accepts_close _ _
  · rfl

/-- A commit that is accepted saves and closes the session, and any other one changes nothing. -/
theorem leftBy_commit (ht : t.underlying = .direct number) (h : Host) :
    leftBy t.commit h =
      if h.accepts (.save number) then (h.after (.save number)).after (.close number) else h := by
  rw [commit_eq ht, Host.leftBy_seq]
  by_cases haccepts : h.accepts (.save number) = true
  · rw [if_pos haccepts, if_pos haccepts]
  · rw [if_neg haccepts, if_neg haccepts]
    exact h.after_save_of_not number (.inl (by simpa using haccepts))

/-- A rollback drops what an open session has staged and closes the session, and does nothing to any
other one. -/
theorem session_leftBy_rollback (ht : t.underlying = .direct number) (h : Host) (k : Nat) :
    (leftBy t.rollback h).session k =
      if k = number ∧ (h.session k).live = true then (h.session k).rolledBack
      else h.session k := by
  rw [rollback_eq ht, Host.leftBy_seq, Host.accepts_refresh]
  by_cases hk : k = number
  · subst hk
    cases hlive : (h.session k).live with
    | true =>
        simp [Host.session_after_close, Host.session_after_refresh, hlive, Session.close,
          Session.rolledBack]
    | false => simp [Host.session_after_refresh, hlive]
  · split <;> simp [Host.session_after_close, Host.session_after_refresh, hk]

/-- A rollback closes the session. -/
theorem live_leftBy_rollback (ht : t.underlying = .direct number) (h : Host) :
    ((leftBy t.rollback h).session number).live = false := by
  rw [session_leftBy_rollback ht]
  split
  · rfl
  · rename_i hclosed
    exact Bool.eq_false_iff.2 fun hlive => hclosed ⟨rfl, hlive⟩

/-- A rollback saves nothing, and opens no session. -/
theorem closesOnly_leftBy_rollback (ht : t.underlying = .direct number) (h : Host) :
    h.ClosesOnly (leftBy t.rollback h) where
  repository := by
    rw [rollback_eq ht, Host.leftBy_seq]
    split <;> simp only [Host.after_close, Host.after_refresh, Host.repository_withSession]
  length := by
    rw [rollback_eq ht, Host.leftBy_seq]
    split <;>
      simp only [Host.after_close, Host.after_refresh, Host.withSession, List.length_set]
  session k := by
    rw [session_leftBy_rollback ht]
    split
    · exact .inr rfl
    · exact .inl rfl

end Transaction

namespace TransactionHost

open TransactionRegistry

/-! ### Events -/

/-- A call on the sessions of a host or on the transactions over them. -/
inductive Call where
  | session (c : Host.Call)
  | start (id : String) (number : Nat)
  | find (id : String)
  | commit (id : String)
  | rollback (id : String)
  | sweep (asOf : Instant)

/-- The session that a call uses. -/
def Call.number? : Call → Option Nat
  | .session c => c.number?
  | .start _ number => some number
  | .find _ | .commit _ | .rollback _ | .sweep _ => none

/-- The identifier that a call starts a transaction under. -/
def Call.started? : Call → Option String
  | .start id _ => some id
  | _ => none

/-- A call at a moment of the clock. -/
structure Event where
  now : Instant
  call : Call

/-- The program of an event. -/
def Event.perform (e : Event) : TransactionM Unit :=
  match e.call with
  | .session c => onHost c.perform
  | .start id number => (fun _ => ()) <$> TransactionRegistry.start id e.now (.direct number)
  | .find id => (fun _ => ()) <$> TransactionRegistry.find id e.now
  | .commit id => TransactionRegistry.commit id
  | .rollback id => TransactionRegistry.rollback id
  | .sweep asOf => (fun _ => ()) <$> TransactionRegistry.sweep asOf

/-- The host and its transactions that an event leaves, whether it succeeds or is refused. -/
def after (s : TransactionHost) (e : Event) : TransactionHost := leftBy e.perform s

/-- The error that an event is refused with. -/
def refusal? (s : TransactionHost) (e : Event) : Option Error := refusalBy e.perform s

/-- A new registry over a repository without sessions. -/
def start (r : Repository) (timeout : Nat) : TransactionHost := ⟨⟨r, []⟩, .empty timeout⟩

/-- The running transaction with an identifier. -/
def running? (s : TransactionHost) (id : String) : Option Transaction := s.registry.running[id]?

/-- Each transaction is registered under its identifier, and is over a session of the host. -/
structure Registered (s : TransactionHost) : Prop where
  id : ∀ {id : String} {t : Transaction}, s.running? id = some t → t.id = id
  direct : ∀ {id : String} {t : Transaction}, s.running? id = some t →
    ∃ number, t.underlying = .direct number

variable {s : TransactionHost} {e : Event} {t : Transaction} {id : String} {number : Nat}
  {now : Instant}

/-! ### Programs of the registry -/

/-- The host with a transaction rolled back and out of the registry. -/
def discarded (s : TransactionHost) (t : Transaction) : TransactionHost :=
  ⟨leftBy t.rollback s.host, s.registry.release t.id⟩

theorem run_running? (s : TransactionHost) (id : String) :
    (TransactionRegistry.running? id).run s =
      match s.running? id with
      | some t => .ok t s
      | none => .error (.transactionMissing id) s := by
  simp only [TransactionRegistry.running?, EStateM.run_bind, EStateM.run_get, running?]
  cases s.registry.running[id]? <;> rfl

theorem run_discard (s : TransactionHost) (t : Transaction) :
    (TransactionRegistry.discard t).run s = .ok () (s.discarded t) := by
  rw [TransactionRegistry.discard, onRegistry, EStateM.run_bind, EStateM.run_modify]
  simp only [EStateM.run, attempt, discarded, leftBy]
  cases t.rollback s.host <;> rfl

theorem run_discardAll (s : TransactionHost) (ts : List Transaction) :
    (discardAll ts).run s = .ok () (ts.foldl discarded s) := by
  induction ts generalizing s with
  | nil => rfl
  | cons t ts ih =>
      rw [discardAll, EStateM.run_bind, run_discard]
      exact ih _

/-- The transaction as a look-up leaves it. -/
def renewed (s : TransactionHost) (now : Instant) (t : Transaction) : Transaction :=
  { t with expires := s.registry.expiryFrom now }

theorem run_find (s : TransactionHost) (id : String) (now : Instant) :
    (TransactionRegistry.find id now).run s =
      match s.running? id with
      | none => .error (.transactionMissing id) s
      | some t =>
          if t.isExpired now then .error (.transactionMissing id) (s.discarded t)
          else .ok (s.renewed now t)
            { s with registry := s.registry.hold (s.renewed now t) } := by
  rw [TransactionRegistry.find, EStateM.run_bind, run_running?]
  cases s.running? id with
  | none => rfl
  | some t =>
      simp only
      split
      · rw [EStateM.run_bind, run_discard]
        rfl
      · rfl

theorem run_ending (s : TransactionHost) (id : String) (work : Transaction → HostM Unit) :
    (do let t ← TransactionRegistry.running? id
        onRegistry (release · id)
        onHost (work t)).run s =
      match s.running? id with
      | none => .error (.transactionMissing id) s
      | some t => (onHost (work t)).run { s with registry := s.registry.release id } := by
  rw [EStateM.run_bind, run_running?]
  cases s.running? id <;> rfl

theorem run_commit (s : TransactionHost) (id : String) :
    (TransactionRegistry.commit id).run s =
      match s.running? id with
      | none => .error (.transactionMissing id) s
      | some t => (onHost t.commit).run { s with registry := s.registry.release id } :=
  run_ending s id Transaction.commit

theorem run_rollback (s : TransactionHost) (id : String) :
    (TransactionRegistry.rollback id).run s =
      match s.running? id with
      | none => .error (.transactionMissing id) s
      | some t => (onHost t.rollback).run { s with registry := s.registry.release id } :=
  run_ending s id Transaction.rollback

theorem leftBy_onHost {α : Type} (work : HostM α) (s : TransactionHost) :
    leftBy (onHost work) s = { s with host := leftBy work s.host } := by
  simp only [leftBy, EStateM.run, onHost]
  cases work s.host <;> rfl

theorem refusalBy_onHost {α : Type} (work : HostM α) (s : TransactionHost) :
    refusalBy (onHost work) s = refusalBy work s.host := by
  simp only [refusalBy, EStateM.run, onHost]
  cases work s.host <;> rfl

/-! ### What each event leaves -/

theorem after_session (s : TransactionHost) (now : Instant) (c : Host.Call) :
    s.after ⟨now, .session c⟩ = { s with host := s.host.after c } :=
  leftBy_onHost c.perform s

theorem after_start (s : TransactionHost) (now : Instant) (id : String) (number : Nat) :
    s.after ⟨now, .start id number⟩ =
      { s with
        registry := s.registry.hold ⟨id, .direct number, s.registry.expiryFrom now⟩ } := rfl

theorem after_find (s : TransactionHost) (now : Instant) (id : String) :
    s.after ⟨now, .find id⟩ =
      match s.running? id with
      | none => s
      | some t =>
          if t.isExpired now then s.discarded t
          else { s with registry := s.registry.hold (s.renewed now t) } := by
  rw [after, Event.perform, leftBy_map, leftBy, run_find]
  cases s.running? id with
  | none => rfl
  | some t =>
      simp only
      cases t.isExpired now <;> rfl

theorem after_commit (s : TransactionHost) (now : Instant) (id : String) :
    s.after ⟨now, .commit id⟩ =
      match s.running? id with
      | none => s
      | some t => ⟨leftBy t.commit s.host, s.registry.release id⟩ := by
  have hperform : Event.perform ⟨now, .commit id⟩ = TransactionRegistry.commit id := rfl
  rw [after, hperform, leftBy, run_commit]
  cases s.running? id with
  | none => rfl
  | some t => exact leftBy_onHost t.commit _

theorem after_rollback (s : TransactionHost) (now : Instant) (id : String) :
    s.after ⟨now, .rollback id⟩ =
      match s.running? id with
      | none => s
      | some t => ⟨leftBy t.rollback s.host, s.registry.release id⟩ := by
  have hperform : Event.perform ⟨now, .rollback id⟩ = TransactionRegistry.rollback id := rfl
  rw [after, hperform, leftBy, run_rollback]
  cases s.running? id with
  | none => rfl
  | some t => exact leftBy_onHost t.rollback _

/-- The transactions that are expired at a moment. -/
def expired (s : TransactionHost) (asOf : Instant) : List Transaction :=
  s.registry.running.values.filter fun t => t.isExpired asOf

theorem after_sweep (s : TransactionHost) (now asOf : Instant) :
    s.after ⟨now, .sweep asOf⟩ = (s.expired asOf).foldl discarded s := by
  rw [after, Event.perform, leftBy_map, leftBy, TransactionRegistry.sweep, EStateM.run_bind,
    EStateM.run_get]
  simp only [EStateM.run_bind, run_discardAll]
  rfl

/-! ### Which events are refused -/

theorem refusal?_find (s : TransactionHost) (now : Instant) (id : String) :
    s.refusal? ⟨now, .find id⟩ =
      match s.running? id with
      | none => some (.transactionMissing id)
      | some t => if t.isExpired now then some (.transactionMissing id) else none := by
  rw [refusal?, Event.perform, refusalBy_map, refusalBy, run_find]
  cases s.running? id with
  | none => rfl
  | some t =>
      simp only
      cases t.isExpired now <;> rfl

theorem refusal?_commit (s : TransactionHost) (now : Instant) (id : String) :
    s.refusal? ⟨now, .commit id⟩ =
      match s.running? id with
      | none => some (.transactionMissing id)
      | some t => refusalBy t.commit s.host := by
  have hperform : Event.perform ⟨now, .commit id⟩ = TransactionRegistry.commit id := rfl
  rw [refusal?, hperform, refusalBy, run_commit]
  cases s.running? id with
  | none => rfl
  | some t => exact refusalBy_onHost t.commit _

theorem refusal?_rollback (s : TransactionHost) (now : Instant) (id : String) :
    s.refusal? ⟨now, .rollback id⟩ =
      match s.running? id with
      | none => some (.transactionMissing id)
      | some t => refusalBy t.rollback s.host := by
  have hperform : Event.perform ⟨now, .rollback id⟩ = TransactionRegistry.rollback id := rfl
  rw [refusal?, hperform, refusalBy, run_rollback]
  cases s.running? id with
  | none => rfl
  | some t => exact refusalBy_onHost t.rollback _

end TransactionHost

end LinkedStore
