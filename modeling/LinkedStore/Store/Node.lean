import LinkedStore.Store.Path
import LinkedStore.Calendar.Instant

/-!
# Nodes, node types and version histories

The records of the store.  A node has a path, an identifier that never changes, a primary type and
mixin types; a node type names the types above it; a history lists the versions of a node, oldest
first, with a version at its start that no client sees.

## Main definitions

* `Node`, `NodeType`, `Version`, `VersionHistory` : the records.
* `Node.declares` : whether a node bears a type itself.
* `VersionHistory.visible` : the versions that a client sees.
* `NodeType.builtin` : the node types that every repository knows.
-/

namespace LinkedStore

/-- A node of the store. -/
structure Node where
  path : String
  identifier : String
  primaryType : String
  mixins : List String
  deriving DecidableEq, Repr

namespace Node

/-- A node without mixins. -/
def plain (path identifier primaryType : String) : Node := ⟨path, identifier, primaryType, []⟩

def isRoot (n : Node) : Bool := n.path == "/"

/-- The last segment of the path. -/
def name (n : Node) : String := Path.name n.path

/-- The primary type and the mixins, in order. -/
def types (n : Node) : List String := n.primaryType :: n.mixins

/-- Whether the node bears a type itself, supertypes aside. -/
def declares (n : Node) (type : String) : Bool :=
  n.primaryType == type || n.mixins.any (· == type)

/-- Whether the node is one of the store's own, and no child in the sense of a container. -/
def isInternalChild (n : Node) : Bool := Path.isInternalName n.name

end Node

/-- A registered node type. -/
structure NodeType where
  name : String
  /-- The types directly above. -/
  supertypes : List String
  isMixin : Bool
  deriving DecidableEq, Repr

namespace NodeType

open Vocab.Name

/-- The node types that every repository knows. -/
def builtin : List NodeType :=
  [⟨ntBase, [], false⟩,
    ⟨ntHierarchyNode, [ntBase], false⟩,
    ⟨ntFolder, [ntHierarchyNode], false⟩,
    ⟨ntFile, [ntHierarchyNode], false⟩,
    ⟨ntResource, [ntBase], false⟩,
    ⟨ntUnstructured, [ntBase], false⟩,
    ⟨ntFrozenNode, [ntBase, mixReferenceable], false⟩,
    ⟨modeRoot, [ntBase], false⟩,
    ⟨modeSystem, [ntBase], false⟩,
    ⟨mixCreated, [], true⟩,
    ⟨mixLastModified, [], true⟩,
    ⟨mixReferenceable, [], true⟩,
    ⟨mixSimpleVersionable, [], true⟩,
    ⟨mixVersionable, [mixSimpleVersionable, mixReferenceable], true⟩,
    ⟨fedoraResource, [mixCreated, mixLastModified, mixReferenceable], true⟩,
    ⟨fedoraContainer, [fedoraResource], true⟩,
    ⟨fedoraBinary, [fedoraResource], true⟩,
    ⟨fedoraDescription, [fedoraResource], true⟩,
    ⟨fedoraPairtree, [], true⟩,
    ⟨fedoraBlanknode, [], true⟩,
    ⟨fedoraTombstone, [], true⟩,
    ⟨ldpBasicContainer, [], true⟩,
    ⟨ldpDirectContainer, [], true⟩,
    ⟨ldpIndirectContainer, [], true⟩]

end NodeType

/-- One snapshot of a node. -/
structure Version where
  name : String
  /-- The path of the frozen copy. -/
  frozenPath : String
  created : Instant
  labels : List String
  deriving DecidableEq, Repr

/-- The versions of a node, oldest first. -/
structure VersionHistory where
  /-- The name of the version at the start. -/
  rootVersion : String
  versions : List Version
  deriving DecidableEq, Repr

/-- The versions that a client sees: all but the one at the start. -/
def VersionHistory.visible (h : VersionHistory) : List Version :=
  h.versions.filter fun v => v.name != h.rootVersion

end LinkedStore
