import LinkedStore.Store.Workspace

/-!
# Checking in versions

A version of a node is a frozen copy of the node and of the nodes below it, kept under a holder
among the node's own children.  Earlier copies are not copied again.  A frozen node records the
identifier and the types of the node it was copied from, and all its properties are guarded.

## Main definitions

* `Workspace.copies` : which node is copied to which path.
* `Workspace.freeze` : the edit that stores the frozen copies.
* `Workspace.checkin` : the edit that adds a version.
* `Workspace.addVersionLabel` : the edit that labels a version.
-/

namespace LinkedStore.Workspace

/-- The nodes to be copied, each with the path of its copy: a node first, and then what lies below
it, the last child first.  Children under a reserved segment are left out.  Paths grow on the way
down, so that `fuel` need not exceed the number of nodes. -/
def copies (w : Workspace) : Nat → String → String → List (String × String)
  | 0, source, target => [(source, target)]
  | fuel + 1, source, target =>
      (source, target) ::
        ((w.children source).filter fun n => !Path.beginsWith "fcr:" n.name).reverse.flatMap
          fun n => copies w fuel n.path (Path.child target n.name)

/-- The properties of the frozen copy of a node. -/
def frozenProperties (w : Workspace) (live : Node) (target : String) : List Property :=
  let recorded :=
    [Property.single target Vocab.Name.frozenUuid (.string live.identifier),
      Property.single target Vocab.Name.frozenPrimaryType (.name live.primaryType),
      Property.many target Vocab.Name.frozenMixinTypes (live.mixins.map .name)]
  (w.propertiesOf live.path ++ recorded).map fun p => { p with owner := target, guarded := true }

/-- The state with the frozen copy of a node of `w` stored at a path. -/
def storeFrozen (w : Workspace) (identifier : String) (source target : String)
    (state : Workspace) : Workspace :=
  match w.node? source with
  | none => state
  | some live =>
      (w.frozenProperties live target).foldl holdProperty
        (state.insertNode (.plain target identifier Vocab.Name.ntFrozenNode))

/-- Copies a node and what lies below it to a path that is free.  The identifiers drawn are the
first for the holder, if it is missing, and the following ones for the copies. -/
def freeze (identifiers : Nat → String) (source target : String) : Edit Unit := do
  let w ← get
  if w.nodes.contains target then throw (.repository (.frozenNodeExists target))
  match Path.parent? target with
  | none => throw (.invalidPath (.noParent target))
  | some holder =>
      if !w.nodes.contains holder then
        modify (·.insertNode (.plain holder (identifiers 0) Vocab.Name.ntFolder))
      modify fun state =>
        (w.copies w.nodes.size source target).zipIdx.foldl
          (fun state copy => w.storeFrozen (identifiers (copy.2 + 1)) copy.1.1 copy.1.2 state)
          state

/-- The path of the frozen copy of a version. -/
def frozenPath (path name : String) : String :=
  Path.child (Path.child path Vocab.Name.versionsHolder) name

/-- The history that a node starts with. -/
def initialHistory (path : String) (created : Instant) : VersionHistory :=
  ⟨Vocab.Name.rootVersion,
    [⟨Vocab.Name.rootVersion, frozenPath path Vocab.Name.rootVersion, created, []⟩]⟩

/-- Adds a version of a versionable node.  The version enters the history before its copy is
made. -/
def checkin (identifiers : Nat → String) (path : String) (labels : List String)
    (created : Instant) : Edit Version := do
  let n ← require path
  if !n.declares Vocab.Name.mixVersionable then throw (.repository (.notVersionable path))
  let history := ((← get).history? path).getD (initialHistory path created)
  let name := "1." ++ toString (history.versions.length - 1)
  let version : Version := ⟨name, frozenPath path name, created, labels⟩
  modify fun w =>
    { w with
      histories :=
        w.histories.insert path { history with versions := history.versions ++ [version] } }
  freeze identifiers path version.frozenPath
  pure version

/-- The versions with a label added to the first one of a given name. -/
def labelFirst (name label : String) : List Version → List Version
  | [] => []
  | v :: rest =>
      if v.name = name then { v with labels := v.labels ++ [label] } :: rest
      else v :: labelFirst name label rest

/-- Adds a label to a version. -/
def addVersionLabel (path name label : String) : Edit Unit := do
  match (← get).history? path with
  | none => throw (.notFound (.history path))
  | some history =>
      if history.versions.any (·.name == name) then
        modify fun w =>
          { w with
            histories :=
              w.histories.insert path
                { history with versions := labelFirst name label history.versions } }
      else throw (.notFound (.version name path))

end LinkedStore.Workspace
