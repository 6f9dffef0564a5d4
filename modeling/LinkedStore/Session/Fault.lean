import LinkedStore.Session.Reader

/-!
# Sessions that refuse some calls

A fault plan names calls that a session is to refuse, listings that are to fail in the middle, and
nodes that are to be hidden.  It is imposed on what another session answers.

## Main definitions

* `SessionCall` : the calls of a session that can fail.
* `FaultPlan` : which calls fail, and how.
* `FaultPlan.impose` : the answers of a session under a plan.
-/

namespace LinkedStore

/-- A call of a session that can fail. -/
inductive SessionCall where
  | node
  | nodeByIdentifier
  | properties
  | property
  | children
  | nodeType
  | nodeTypes
  | namespaceOf
  | prefixOf
  | namespaces
  | references
  | history
  | fixity
  | save
  | refresh
  | hasPendingChanges
  deriving DecidableEq, Repr

namespace SessionCall

/-- The word for a call. -/
def word : SessionCall → String
  | node => "node"
  | nodeByIdentifier => "node_by_identifier"
  | properties => "properties"
  | property => "property"
  | children => "children"
  | nodeType => "node_type"
  | nodeTypes => "node_types"
  | namespaceOf => "namespace_uri"
  | prefixOf => "namespace_prefix"
  | namespaces => "namespace_prefixes"
  | references => "references"
  | history => "version_history"
  | fixity => "fixity"
  | save => "save"
  | refresh => "refresh"
  | hasPendingChanges => "has_pending_changes"

def all : List SessionCall :=
  [node, nodeByIdentifier, properties, property, children, nodeType, nodeTypes, namespaceOf,
    prefixOf, namespaces, references, history, fixity, save, refresh, hasPendingChanges]

end SessionCall

/-- Which calls a session refuses, which listings fail behind their first item, and which nodes it
hides. -/
structure FaultPlan where
  refused : List SessionCall
  broken : List SessionCall
  hidden : List String
  deriving DecidableEq, Repr

namespace FaultPlan

/-- The answer to a call, unless the plan refuses the call. -/
def guarding {α : Type} (plan : FaultPlan) (call : SessionCall) (answer : Except Error α) :
    Except Error α :=
  if plan.refused.contains call then .error (.refused (call.word ++ " failed")) else answer

/-- A listing under the plan: a broken one fails behind its first item, or at once if it has none,
and goes on. -/
def listing {α : Type} (plan : FaultPlan) (call : SessionCall) (answer : Listing α) :
    Listing α :=
  plan.guarding call <| answer.map fun items =>
    if plan.broken.contains call then
      items.take 1 ++ .error (.refused (call.word ++ " item failed")) :: items.drop 1
    else items

/-- The answers of a session under a plan. -/
def impose (plan : FaultPlan) (r : Reader) : Reader :=
  { r with
    node path := plan.guarding .node (if plan.hidden.contains path then .ok none else r.node path)
    nodeByIdentifier identifier := plan.guarding .nodeByIdentifier (r.nodeByIdentifier identifier)
    properties path := plan.listing .properties (r.properties path)
    property path name := plan.guarding .property (r.property path name)
    children path := plan.listing .children (r.children path)
    nodeType name := plan.guarding .nodeType (r.nodeType name)
    nodeTypes := plan.listing .nodeTypes r.nodeTypes
    namespaceOf lead := plan.guarding .namespaceOf (r.namespaceOf lead)
    prefixOf ns := plan.guarding .prefixOf (r.prefixOf ns)
    namespaces := plan.guarding .namespaces r.namespaces
    references path kind := plan.listing .references (r.references path kind)
    history path := plan.guarding .history (r.history path)
    fixity path algorithm := plan.guarding .fixity (r.fixity path algorithm)
    hasPendingChanges := plan.guarding .hasPendingChanges r.hasPendingChanges
    transaction? := none }

end FaultPlan

end LinkedStore
