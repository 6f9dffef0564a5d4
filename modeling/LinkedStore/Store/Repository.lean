import LinkedStore.Store.Workspace

/-!
# Repositories

A repository holds the saved state of each workspace and the registries that all of them share:
the namespace of each prefix and the node types.

## Main definitions

* `Repository` : saved workspaces and registries.
* `Repository.start` : the repository that everything starts from.
-/

namespace LinkedStore

/-- Saved workspaces and registries. -/
structure Repository where
  workspaces : Table Workspace
  /-- The namespace of each prefix. -/
  namespaces : Table String
  nodeTypes : Table NodeType

namespace Repository

/-- The workspace that every repository has. -/
def defaultWorkspace : String := "default"

/-- A repository with one workspace, which holds a root alone. -/
def start (identifier : String) : Repository where
  workspaces := (∅ : Table Workspace).insert defaultWorkspace (.withRoot identifier)
  namespaces := .ofList Vocab.defaultPrefixes
  nodeTypes := .ofList (NodeType.builtin.map fun t => (t.name, t))

/-- The saved state of a workspace. -/
def committed (r : Repository) (workspace : String) : Workspace :=
  r.workspaces.getD workspace .empty

/-- The repository with a new workspace, which holds a root alone. -/
def createWorkspace (r : Repository) (name identifier : String) : Except Error Repository :=
  if r.workspaces.contains name then .error (.repository (.workspaceExists name))
  else .ok { r with workspaces := r.workspaces.insert name (.withRoot identifier) }

def registerNamespace (r : Repository) (lead ns : String) : Repository :=
  { r with namespaces := r.namespaces.insert lead ns }

def registerNodeType (r : Repository) (t : NodeType) : Repository :=
  { r with nodeTypes := r.nodeTypes.insert t.name t }

end Repository

end LinkedStore
