import LinkedStore.Error
import LinkedStore.Store.Node
import LinkedStore.Store.Property
import LinkedStore.Store.Table

/-!
# Workspaces

A workspace is one state of the store: nodes by path, their properties by path and name, the path
of every identifier, and the history of every versioned node.  Edits are programs over a
workspace; one that fails keeps what it did before it failed.

## Main definitions

* `Workspace` : a state of the store.
* `Workspace.children`, `Workspace.references` : the nodes below a node, and the properties that
  point at it.
* `Edit` : a program over a workspace.
* `Workspace.addNode`, `Workspace.removeNode`, `Workspace.putProperty` and their like : the edits.

## Main statements

* `Workspace.require_run` : asking for a node leaves the workspace as it is.
-/

namespace LinkedStore

/-- A state of the store. -/
structure Workspace where
  /-- How often the state has been saved. -/
  version : Nat
  nodes : Table Node
  properties : Table (Table Property)
  /-- The path of each identifier. -/
  identifiers : Table String
  histories : Table VersionHistory

namespace Workspace

/-! ### Reading -/

def empty : Workspace := ⟨0, ∅, ∅, ∅, ∅⟩

def node? (w : Workspace) (path : String) : Option Node := w.nodes[path]?

/-- The node that bears an identifier. -/
def byIdentifier? (w : Workspace) (identifier : String) : Option Node :=
  w.identifiers[identifier]?.bind w.node?

/-- The properties of a node, in the order of their names. -/
def propertiesOf (w : Workspace) (path : String) : List Property :=
  (w.properties[path]?.map Std.ExtTreeMap.values).getD []

def property? (w : Workspace) (path name : String) : Option Property :=
  w.properties[path]?.bind fun held => held[name]?

/-- The nodes directly below a node, in the order of their paths. -/
def children (w : Workspace) (path : String) : List Node :=
  w.nodes.values.filter fun n => Path.parent? n.path == some path

/-- The paths of a node and of all nodes below it. -/
def subtree (w : Workspace) (path : String) : List String :=
  w.nodes.keys.filter (Path.isWithin path)

/-- The properties with a value that points at a node, in the order of their owners and names. -/
def references (w : Workspace) (path : String) (kind : ReferenceKind) : List Property :=
  match w.node? path with
  | none => []
  | some target =>
      (w.properties.values.flatMap Std.ExtTreeMap.values).filter fun p =>
        p.values.any fun v => kind.includes v && v.text? == some target.identifier

def history? (w : Workspace) (path : String) : Option VersionHistory := w.histories[path]?

/-- The bytes of a content node. -/
def content? (w : Workspace) (path : String) : Option Text.Bytes :=
  match (w.property? path Vocab.Name.data).bind Property.value? with
  | some (.binary bytes) => some bytes
  | _ => none

/-! ### Writing -/

/-- The state with a node stored under its path and its identifier. -/
def insertNode (w : Workspace) (n : Node) : Workspace :=
  { w with
    nodes := w.nodes.insert n.path n
    identifiers := w.identifiers.insert n.identifier n.path }

/-- The state with a property stored under its owner and its name. -/
def holdProperty (w : Workspace) (p : Property) : Workspace :=
  { w with
    properties := w.properties.insert p.owner ((w.properties.getD p.owner ∅).insert p.name p) }

/-- The state without the node at a path, its identifier, its properties and its history. -/
def dropNode (w : Workspace) (path : String) : Workspace :=
  { w with
    nodes := w.nodes.erase path
    properties := w.properties.erase path
    identifiers :=
      match w.node? path with
      | some n => w.identifiers.erase n.identifier
      | none => w.identifiers
    histories := w.histories.erase path }

/-- The state that a workspace starts with: a root that is a container. -/
def withRoot (identifier : String) : Workspace :=
  empty.insertNode
    ⟨"/", identifier, Vocab.Name.modeRoot, [Vocab.Name.fedoraContainer]⟩

end Workspace

/-! ### Edits -/

/-- A program over a workspace.  A program that fails keeps what it did before it failed. -/
abbrev Edit := EStateM Error Workspace

namespace Workspace

/-- The node at a path. -/
def require (path : String) : Edit Node := do
  match (← get).node? path with
  | some n => pure n
  | none => throw (.notFound (.node path))

theorem require_run (path : String) (w : Workspace) :
    (require path).run w =
      match w.node? path with
      | some n => .ok n w
      | none => .error (.notFound (.node path)) w := by
  change EStateM.run (match w.node? path with | some n => pure n | none => throw _) w = _
  cases w.node? path <;> rfl

/-- Adds a node below a parent that is there, at a path that is free. -/
def addNode (identifier parent path primaryType : String) : Edit Node := do
  let _ ← require parent
  if (← get).nodes.contains path then throw (.repository (.nodeExists path))
  let n := Node.plain path identifier primaryType
  modify (·.insertNode n)
  pure n

/-- Changes the mixins of a node. -/
def changeMixins (path : String) (change : List String → List String) : Edit Unit := do
  let n ← require path
  modify fun w => { w with nodes := w.nodes.insert path { n with mixins := change n.mixins } }

/-- Adds a mixin behind the others, unless the node has it. -/
def addMixin (path mixin : String) : Edit Unit :=
  changeMixins path fun held => if held.contains mixin then held else held ++ [mixin]

/-- Removes a mixin. -/
def removeMixin (path mixin : String) : Edit Unit :=
  changeMixins path fun held => held.filter (· != mixin)

/-- Removes a node and all nodes below it. -/
def removeNode (path : String) : Edit Unit := do
  let _ ← require path
  modify fun w => (w.subtree path).foldl dropNode w

/-- Sets a property of a node. -/
def putProperty (p : Property) : Edit Unit := do
  let _ ← require p.owner
  modify (·.holdProperty p)

/-- Removes a property of a node and returns it, if there is one. -/
def removeProperty (path name : String) : Edit (Option Property) := do
  let _ ← require path
  let held := (← get).property? path name
  modify fun w =>
    match w.properties[path]? with
    | some properties =>
        { w with properties := w.properties.insert path (properties.erase name) }
    | none => w
  pure held

end Workspace

end LinkedStore
