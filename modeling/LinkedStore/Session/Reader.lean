import LinkedStore.Fixity
import LinkedStore.Store.Node
import LinkedStore.Store.Property

/-!
# What a session answers

A reader is the reading side of a session as it stands at one moment.  Everything above the store
reads through one, so that it does not matter whether a session is plain, scoped to a transaction,
or refuses some of its calls.  A listing may hold failures among its items.

## Main definitions

* `Listing` : the answer to a call that lists.
* `Reader` : the answers of a session.
-/

namespace LinkedStore

/-- The answer to a call that lists: the call may fail, and so may each item. -/
abbrev Listing (α : Type) := Except Error (List (Except Error α))

/-- The answers of a session at one moment. -/
structure Reader where
  node : String → Except Error (Option Node)
  nodeByIdentifier : String → Except Error (Option Node)
  properties : String → Listing Property
  property : String → String → Except Error (Option Property)
  children : String → Listing Node
  nodeType : String → Except Error (Option NodeType)
  nodeTypes : Listing NodeType
  /-- The namespace of a prefix. -/
  namespaceOf : String → Except Error (Option String)
  /-- The first prefix of a namespace. -/
  prefixOf : String → Except Error (Option String)
  /-- All prefixes with their namespaces, in order. -/
  namespaces : Except Error (List (String × String))
  references : String → ReferenceKind → Listing Property
  history : String → Except Error (Option VersionHistory)
  fixity : String → DigestAlgorithm → Except Error (List FixityResult)
  hasPendingChanges : Except Error Bool
  isLive : Bool
  workspace : String
  transaction? : Option String
  /-- How many nodes the session holds. -/
  extent : Nat
  /-- How many links from a type to one above it are registered. -/
  typeLinks : Nat

end LinkedStore
