import LinkedStore.Session.Fault
import LinkedStore.Session.Mutation

/-!
# Hosts

A host is a repository together with the sessions opened on it.  Sessions are addressed by number,
directly or through a wrapper: one scopes a session to a transaction, so that saving and closing
are left to the transaction, and one imposes a fault plan.

## Main definitions

* `Host` : a repository and its sessions.
* `Access` : a way to a session.
* `Access.reader` : what the session answers that way.
* `Access.save`, `Access.refresh`, `Access.close`, `Access.mutate` : its other calls.
-/

namespace LinkedStore

/-- A repository and the sessions opened on it, in the order in which they were opened. -/
structure Host where
  repository : Repository
  sessions : List Session

/-- A program over a host.  A program that fails keeps what it did before it failed. -/
abbrev HostM := EStateM Error Host

namespace Host

/-- A host without sessions. -/
def start (identifier : String) : Host := ⟨.start identifier, []⟩

/-- The session with a number; a number not given out is taken for a closed session. -/
def session (h : Host) (number : Nat) : Session := h.sessions.getD number .closed

/-- The saved state that a session builds on. -/
def committedFor (h : Host) (number : Nat) : Workspace :=
  h.repository.committed (h.session number).workspace

/-- Opens a session on a workspace and returns its number. -/
def openSession (workspace : String) : HostM Nat := do
  let h ← get
  if h.repository.workspaces.contains workspace then
    set { h with sessions := h.sessions ++ [Session.opened workspace] }
    pure h.sessions.length
  else throw (.notFound (.workspace workspace))

/-- Runs a program over a session. -/
def onSession {α : Type} (number : Nat) (work : Session.Work α) : HostM α := fun h =>
  match work.run (h.session number) with
  | .ok a s => .ok a { h with sessions := h.sessions.set number s }
  | .error e s => .error e { h with sessions := h.sessions.set number s }

/-- Runs a mutation on a session. -/
def mutate (number : Nat) (d : Draws) (m : Mutation) : HostM Mutation.Outcome := do
  onSession number (m.run ((← get).committedFor number) d)

/-- Saves a session. -/
def saveSession (number : Nat) : HostM Unit := fun h =>
  match (h.session number).save h.repository with
  | (.ok (), r, s) => .ok () ⟨r, h.sessions.set number s⟩
  | (.error e, r, s) => .error e ⟨r, h.sessions.set number s⟩

end Host

/-- A way to a session. -/
inductive Access where
  | direct (number : Nat)
  /-- Through the scope of a transaction. -/
  | within (transaction : String) (inner : Access)
  /-- Through a fault plan. -/
  | faulty (plan : FaultPlan) (inner : Access)
  deriving DecidableEq, Repr

namespace Access

/-- The number of the session at the end of the way. -/
def number : Access → Nat
  | .direct n => n
  | .within _ inner => inner.number
  | .faulty _ inner => inner.number

/-- What the session answers at this moment. -/
def reader (h : Host) : Access → Reader
  | .direct n => (h.session n).reader h.repository
  | .within id inner => { inner.reader h with transaction? := some id }
  | .faulty plan inner => plan.impose (inner.reader h)

/-- Saves the session.  Within a transaction saving is left to the transaction. -/
def save : Access → HostM Unit
  | .direct n => Host.saveSession n
  | .within _ _ => pure ()
  | .faulty plan inner =>
      if plan.refused.contains .save then
        throw (.refused (SessionCall.save.word ++ " failed"))
      else inner.save

/-- Refreshes the session. -/
def refresh (keep : Bool) : Access → HostM Unit
  | .direct n => Host.onSession n (Session.refresh keep)
  | .within _ inner => inner.refresh keep
  | .faulty plan inner =>
      if plan.refused.contains .refresh then
        throw (.refused (SessionCall.refresh.word ++ " failed"))
      else inner.refresh keep

/-- Closes the session.  Within a transaction closing is left to the transaction. -/
def close : Access → HostM Unit
  | .direct n => Host.onSession n (modify Session.close)
  | .within _ _ => pure ()
  | .faulty _ inner => inner.close

/-- Runs a mutation on the session at the end of the way. -/
def mutate (a : Access) (d : Draws) (m : Mutation) : HostM Mutation.Outcome :=
  Host.mutate a.number d m

end Access

end LinkedStore
