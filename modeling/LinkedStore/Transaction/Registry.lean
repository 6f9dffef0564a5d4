import LinkedStore.Session.Host

/-!
# Transactions

A transaction owns a session and decides its fate: it is saved on commit, and its changes are
dropped on rollback; after either it is closed.  Whoever works within a transaction has a scoped way
to the session, through which it can be neither saved nor closed.  A transaction that is idle for
too long expires.  Every look-up that finds it sets its expiry anew, and one that finds it expired
rolls it back.

## Main definitions

* `Transaction` : a session with an identifier and an expiry.
* `TransactionRegistry` : the transactions that are running.
* `TransactionRegistry.start`, `TransactionRegistry.find`, `TransactionRegistry.commit`,
  `TransactionRegistry.rollback`, `TransactionRegistry.sweep` : the operations on a registry.

## Main statements

* `Transaction.isExpired_iff` : a transaction is expired from the moment of its expiry on.
-/

namespace LinkedStore

/-- A session with an identifier and an expiry. -/
structure Transaction where
  id : String
  /-- The session that the transaction owns. -/
  underlying : Access
  expires : Instant
  deriving DecidableEq, Repr

namespace Transaction

/-- The scoped way to the session. -/
def session (t : Transaction) : Access := .within t.id t.underlying

def isExpired (t : Transaction) (now : Instant) : Bool := decide (t.expires ≤ now)

theorem isExpired_iff {t : Transaction} {now : Instant} :
    t.isExpired now = true ↔ t.expires ≤ now := by simp [isExpired]

/-- Saves the session and closes it.  It stays open if it cannot be saved. -/
def commit (t : Transaction) : HostM Unit := do
  t.underlying.save
  t.underlying.close

/-- Drops the changes of the session and closes it.  It stays open if it cannot be refreshed. -/
def rollback (t : Transaction) : HostM Unit := do
  t.underlying.refresh false
  t.underlying.close

end Transaction

/-- The transactions that are running. -/
structure TransactionRegistry where
  /-- The time in seconds after which an idle transaction expires. -/
  timeout : Nat
  running : Table Transaction

/-- A host together with the transactions over its sessions. -/
structure TransactionHost where
  host : Host
  registry : TransactionRegistry

/-- A program over a host and its transactions.  A program that fails keeps what it did before it
failed. -/
abbrev TransactionM := EStateM Error TransactionHost

namespace TransactionRegistry

/-- The longest timeout: ten years. -/
def maxTimeout : Nat := 10 * 365 * 24 * 60 * 60

/-- A registry without transactions. -/
def empty (timeout : Nat) : TransactionRegistry := ⟨min timeout maxTimeout, ∅⟩

def size (r : TransactionRegistry) : Nat := r.running.size

/-- The expiry of a transaction that is looked up at a moment. -/
def expiryFrom (r : TransactionRegistry) (now : Instant) : Instant := now.later r.timeout

/-- The registry with a transaction. -/
def hold (r : TransactionRegistry) (t : Transaction) : TransactionRegistry :=
  { r with running := r.running.insert t.id t }

/-- The registry without a transaction. -/
def release (r : TransactionRegistry) (id : String) : TransactionRegistry :=
  { r with running := r.running.erase id }

/-! ### Programs -/

/-- Runs a program over the host alone. -/
def onHost {α : Type} (work : HostM α) : TransactionM α := fun s =>
  match work.run s.host with
  | .ok a h => .ok a { s with host := h }
  | .error e h => .error e { s with host := h }

/-- Changes the registry alone. -/
def onRegistry (change : TransactionRegistry → TransactionRegistry) : TransactionM Unit :=
  modify fun s => { s with registry := change s.registry }

/-- Runs a program over the host alone, whether it fails or not. -/
def attempt (work : HostM Unit) : TransactionM Unit := fun s =>
  match work.run s.host with
  | .ok _ h | .error _ h => .ok () { s with host := h }

/-- Starts a transaction over a session. -/
def start (id : String) (now : Instant) (underlying : Access) : TransactionM Transaction := do
  let t : Transaction := ⟨id, underlying, (← get).registry.expiryFrom now⟩
  onRegistry (hold · t)
  pure t

/-- Rolls a transaction back and forgets it. -/
def discard (t : Transaction) : TransactionM Unit := do
  onRegistry (release · t.id)
  attempt t.rollback

/-- The running transaction with an identifier. -/
def running? (id : String) : TransactionM Transaction := do
  match (← get).registry.running[id]? with
  | some t => pure t
  | none => throw (.transactionMissing id)

/-- Looks a transaction up and sets its expiry anew.  One that is expired is discarded.  The clock
is read for the check and again for the new expiry; it stands still in between. -/
def find (id : String) (now : Instant) : TransactionM Transaction := do
  let t ← running? id
  if t.isExpired now then
    discard t
    throw (.transactionMissing id)
  else
    let renewed := { t with expires := (← get).registry.expiryFrom now }
    onRegistry (hold · renewed)
    pure renewed

/-- Commits a transaction and forgets it, also if it cannot be saved. -/
def commit (id : String) : TransactionM Unit := do
  let t ← running? id
  onRegistry (release · id)
  onHost t.commit

/-- Rolls a transaction back and forgets it, also if that fails. -/
def rollback (id : String) : TransactionM Unit := do
  let t ← running? id
  onRegistry (release · id)
  onHost t.rollback

/-- Discards all transactions of a list. -/
def discardAll : List Transaction → TransactionM Unit
  | [] => pure ()
  | t :: rest => do
      discard t
      discardAll rest

/-- Discards all expired transactions and returns their number. -/
def sweep (now : Instant) : TransactionM Nat := do
  let expired := (← get).registry.running.values.filter fun t => t.isExpired now
  discardAll expired
  pure expired.length

end TransactionRegistry

end LinkedStore
