import LinkedStore.Address.IriMap
import LinkedStore.Configuration
import LinkedStore.Transaction.Registry

/-!
# Sessions of requests

A request reads through the session that its path is scoped to: that of a running transaction, a
new one on a named workspace, or a new one on the configured workspace.

## Main definitions

* `Configuration.registry` : the registry of transactions that a configuration asks for.
* `Configuration.startTransaction` : a transaction over a new session.
* `Configuration.sessionFor` : the session of a request.
* `Configuration.iriMap` : the mapping of IRIs within a scope.
-/

namespace LinkedStore.Configuration

open TransactionRegistry (onHost)

/-- The registry of transactions that a configuration asks for. -/
def registry (c : Configuration) : TransactionRegistry := .empty c.timeout

/-- Opens a session on a workspace. -/
def openOn (workspace : String) : TransactionM Access :=
  onHost (Access.direct <$> Host.openSession workspace)

/-- Starts a transaction over a new session on the configured workspace. -/
def startTransaction (c : Configuration) (id : String) (now : Instant) :
    TransactionM Transaction := do
  TransactionRegistry.start id now (← openOn c.workspace)

/-- The session of a scope. -/
def sessionFor (c : Configuration) (now : Instant) : Scope → TransactionM Access
  | .standard => openOn c.workspace
  | .workspace name => openOn name
  | .transaction id => do pure (← TransactionRegistry.find id now).session

/-- The session of a request, and what its path says. -/
def sessionForRequest (c : Configuration) (now : Instant) (request : String) :
    TransactionM (Access × ScopedPath) := do
  match ScopedPath.parse request with
  | .error e => throw e
  | .ok target => pure (← c.sessionFor now target.scope, target)

/-- The mapping of IRIs within a scope. -/
def iriMap (c : Configuration) (scope : Scope) : IriMap := .ofBase c.base scope

end LinkedStore.Configuration
