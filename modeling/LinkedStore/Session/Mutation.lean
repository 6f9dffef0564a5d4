import LinkedStore.Session.Basic

/-!
# Mutations

The calls that change what a session has staged.  Identifiers and the time of day are drawn
outside; a mutation is given all it may use.

## Main definitions

* `Mutation` : the calls.
* `Draws` : what is drawn for one call.
* `Mutation.run` : the program of a call over a session.
-/

namespace LinkedStore

/-- What is drawn outside for one call: identifiers, and the time of day. -/
structure Draws where
  identifier : Nat → String
  /-- The clock stands still during a call: each time that the call reads it, this is the answer. -/
  now : Instant

/-- A call that changes what a session has staged. -/
inductive Mutation where
  | addNode (path primaryType : String)
  | createContainer (path : String)
  | createBinary (path : String) (bytes : Text.Bytes) (mimeType : String)
  | addMixin (path mixin : String)
  | removeMixin (path mixin : String)
  | removeNode (path : String)
  | putProperty (property : Property)
  | removeProperty (path name : String)
  /-- Adds a version, created now if no time is given. -/
  | checkin (path : String) (labels : List String) (created : Option Instant)
  | addVersionLabel (path version label : String)

/-- The result of a mutation. -/
inductive Mutation.Outcome where
  | done
  | node (n : Node)
  | version (v : Version)
  | property (p : Option Property)
  deriving DecidableEq, Repr

namespace Session

/-- Adds a node below its parent. -/
def addNode (committed : Workspace) (identifier path primaryType : String) : Work Node :=
  match Path.parent? path with
  | none => throw (.invalidPath (.noParent path))
  | some parent => write committed (Workspace.addNode identifier parent path primaryType)

def addMixin (committed : Workspace) (path mixin : String) : Work Unit :=
  write committed (Workspace.addMixin path mixin)

def putProperty (committed : Workspace) (p : Property) : Work Unit :=
  write committed (Workspace.putProperty p)

/-- Records on a node its identifier and when it was created and last changed. -/
def stampCreated (committed : Workspace) (now : Instant) (n : Node) : Work Unit := do
  putProperty committed (Property.single n.path Vocab.Name.uuid (.string n.identifier)).guard
  putProperty committed (Property.single n.path Vocab.Name.created (.date now)).guard
  putProperty committed (Property.single n.path Vocab.Name.lastModified (.date now)).guard

/-- The node that has just been created at a path. -/
def createdNode (committed : Workspace) (path : String) : Work Node := do
  match (← get).current committed |>.node? path with
  | some n => pure n
  | none => throw (.repository (.nodeVanished path))

/-- Creates a container of the repository. -/
def createContainer (committed : Workspace) (d : Draws) (path : String) : Work Node := do
  let n ← addNode committed (d.identifier 0) path Vocab.Name.ntFolder
  addMixin committed path Vocab.Name.fedoraContainer
  stampCreated committed d.now n
  createdNode committed path

/-- Creates a binary: a description at a path, and below it the content with its bytes, their
digest and their number.  The clock is read once for either half; it stands still in between, so
that both are stamped with one time. -/
def createBinary (committed : Workspace) (d : Draws) (path : String) (bytes : Text.Bytes)
    (mimeType : String) : Work Node := do
  let description ← addNode committed (d.identifier 0) path Vocab.Name.ntFile
  addMixin committed path Vocab.Name.fedoraDescription
  stampCreated committed d.now description
  let contentPath := Path.child path Vocab.Name.content
  let content ← addNode committed (d.identifier 1) contentPath Vocab.Name.ntResource
  addMixin committed contentPath Vocab.Name.fedoraBinary
  stampCreated committed d.now content
  putProperty committed (.single contentPath Vocab.Name.data (.binary bytes))
  putProperty committed
    (Property.single contentPath Vocab.Name.mimeType (.string mimeType)).guard
  putProperty committed
    (.single contentPath Vocab.Name.contentDigest (.uri (DigestAlgorithm.sha1.digestIri bytes)))
  putProperty committed (.single contentPath Vocab.Name.contentSize (.long bytes.length))
  createdNode committed path

end Session

namespace Mutation

open Session (write)

/-- The program of a call over a session on a workspace with a given saved state. -/
def run (committed : Workspace) (d : Draws) : Mutation → Session.Work Outcome
  | addNode path primaryType =>
      .node <$> Session.addNode committed (d.identifier 0) path primaryType
  | createContainer path => .node <$> Session.createContainer committed d path
  | createBinary path bytes mimeType =>
      .node <$> Session.createBinary committed d path bytes mimeType
  | addMixin path mixin => (fun _ => .done) <$> Session.addMixin committed path mixin
  | removeMixin path mixin =>
      (fun _ => .done) <$> write committed (Workspace.removeMixin path mixin)
  | removeNode path => (fun _ => .done) <$> write committed (Workspace.removeNode path)
  | putProperty p => (fun _ => .done) <$> Session.putProperty committed p
  | removeProperty path name =>
      .property <$> write committed (Workspace.removeProperty path name)
  | checkin path labels created =>
      .version <$>
        write committed (Workspace.checkin d.identifier path labels (created.getD d.now))
  | addVersionLabel path version label =>
      (fun _ => .done) <$> write committed (Workspace.addVersionLabel path version label)

end Mutation

end LinkedStore
