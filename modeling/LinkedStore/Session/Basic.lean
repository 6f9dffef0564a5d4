import LinkedStore.Session.Reader
import LinkedStore.Store.Checkin
import LinkedStore.Store.Repository

/-!
# Sessions

A session reads the saved state of a workspace until it first writes.  From then on it works on a
copy of its own.  Saving publishes the copy, unless the workspace has been saved since the copy was
taken; refreshing drops it.  A closed session refuses every call.

## Main definitions

* `Session` : a workspace, a staged copy, and whether the session is open.
* `Session.reader` : what the session answers.
* `Session.write` : an edit of the staged copy.
* `Session.save`, `Session.refresh`, `Session.close` : the ends of staged changes.

## Main statements

* `Session.write_of_closed` : a closed session refuses every edit and keeps its state.
-/

namespace LinkedStore

/-- A session on a workspace. -/
structure Session where
  workspace : String
  /-- The copy that the session works on, once it has written. -/
  staged : Option Workspace
  live : Bool

namespace Session

/-- A session that has just been opened. -/
def opened (workspace : String) : Session := ⟨workspace, none, true⟩

/-- A session that refuses every call. -/
def closed : Session := ⟨"", none, false⟩

/-- The refusal of a closed session. -/
def refusal (s : Session) : Error := .repository (.sessionClosed s.workspace)

/-- The state that the session works on: its copy, or else the saved state. -/
def current (s : Session) (committed : Workspace) : Workspace := s.staged.getD committed

/-! ### Reading -/

/-- An answer of a session, unless it is closed. -/
def answer {α : Type} (s : Session) (value : α) : Except Error α :=
  if s.live then .ok value else .error s.refusal

/-- A listing without failing items. -/
def listing {α : Type} (s : Session) (items : List α) : Listing α := s.answer (items.map .ok)

/-- What a session answers. -/
def reader (r : Repository) (s : Session) : Reader :=
  let w := s.current (r.committed s.workspace)
  { node path := s.answer (w.node? path)
    nodeByIdentifier identifier := s.answer (w.byIdentifier? identifier)
    properties path := s.listing (w.propertiesOf path)
    property path name := s.answer (w.property? path name)
    children path := s.listing (w.children path)
    nodeType name := s.answer r.nodeTypes[name]?
    nodeTypes := s.listing r.nodeTypes.values
    namespaceOf lead := s.answer r.namespaces[lead]?
    prefixOf ns := s.answer ((r.namespaces.toList.find? (·.2 == ns)).map (·.1))
    namespaces := s.answer r.namespaces.toList
    references path kind := s.listing (w.references path kind)
    history path := s.answer (w.history? path)
    fixity path algorithm := do
      match ← s.answer (w.content? path) with
      | none => .error (.notFound (.content path))
      | some bytes =>
          .ok [.computed ("memory://" ++ s.workspace ++ path) (algorithm.digestIri bytes)
            bytes.length]
    hasPendingChanges := s.answer s.staged.isSome
    isLive := s.live
    workspace := s.workspace
    transaction? := none
    extent := w.nodes.size
    typeLinks := (r.nodeTypes.values.flatMap NodeType.supertypes).length }

/-! ### Writing -/

/-- A program over a session.  A program that fails keeps what it did before it failed. -/
abbrev Work := EStateM Error Session

/-- Runs an edit on the session's copy, which is taken from the saved state if there is none yet.
The copy is kept even if the edit fails. -/
def write {α : Type} (committed : Workspace) (edit : Edit α) : Work α := fun s =>
  if s.live then
    match edit.run (s.current committed) with
    | .ok a w => .ok a { s with staged := some w }
    | .error e w => .error e { s with staged := some w }
  else .error s.refusal s

theorem write_of_closed {α : Type} (committed : Workspace) (edit : Edit α) {s : Session}
    (h : s.live = false) : (write committed edit).run s = .error s.refusal s := by
  simp [write, EStateM.run, h]

/-! ### Ends of staged changes -/

/-- Publishes the staged copy as the saved state of the workspace.  A copy that was taken from a
state saved over since is refused, and nothing changes. -/
def save (r : Repository) (s : Session) : Except Error Unit × Repository × Session :=
  if s.live then
    match s.staged with
    | none => (.ok (), r, s)
    | some w =>
        if (r.committed s.workspace).version = w.version then
          (.ok (),
            { r with
              workspaces := r.workspaces.insert s.workspace { w with version := w.version + 1 } },
            { s with staged := none })
        else (.error (.repository (.staleChanges s.workspace)), r, s)
  else (.error s.refusal, r, s)

/-- Drops the staged copy, unless it is to be kept. -/
def refresh (keep : Bool) : Work Unit := fun s =>
  if s.live then .ok () (if keep then s else { s with staged := none })
  else .error s.refusal s

/-- The session, closed. -/
def close (s : Session) : Session := { s with live := false }

end Session

end LinkedStore
