import LinkedStore.Proofs.Store.Edit
import LinkedStore.Session.Mutation

/-!
# Mutations as edits

A mutation is a program over a session, made of several writes.  Each write but the first finds a
staged copy, so that all of them together are one write of one edit: the edits in a row, on the
staged copy or else on a copy of the saved state.  Only a mutation that is to add a node at a path
without a parent is refused before it writes.

## Main definitions

* `Mutation.edit` : what a mutation does to a workspace.
* `Mutation.orphan?` : the path of a mutation that is refused before it writes.
* `Session.Follows` : a program does to a staged copy what an edit does.
* `Edit.Kept` : a property of workspaces that no edit takes away.
* `Edit.KeptAt` : one that no edit takes away which adds and removes nodes at some paths only.

## Main statements

* `Session.write_bind` : a write and what follows it are one write.
* `Mutation.run_eq` : a mutation is one write of its edit, or is refused before it writes.
* `Mutation.leftBy_run` : the session that a mutation leaves.
* `Edit.KeptAt.edit`, `Edit.Kept.edit` : what no edit takes away, no mutation takes away.
-/

namespace LinkedStore

/-! ### The edits of mutations -/

namespace Workspace

/-- Adds a node below its parent. -/
def addNodeAt (identifier path primaryType : String) : Edit Node :=
  match Path.parent? path with
  | none => throw (.invalidPath (.noParent path))
  | some parent => addNode identifier parent path primaryType

/-- The properties that record of a node its identifier and when it was created and last
changed. -/
def stamps (now : Instant) (n : Node) : List Property :=
  [(Property.single n.path Vocab.Name.uuid (.string n.identifier)).guard,
    (Property.single n.path Vocab.Name.created (.date now)).guard,
    (Property.single n.path Vocab.Name.lastModified (.date now)).guard]

theorem owner_of_mem_stamps {now : Instant} {n : Node} {p : Property} (hp : p ∈ stamps now n) :
    p.owner = n.path := by
  simp only [stamps, List.mem_cons, List.not_mem_nil, or_false] at hp
  rcases hp with rfl | rfl | rfl <;> rfl

/-- Records on a node its identifier and when it was created and last changed. -/
def stampCreated (now : Instant) (n : Node) : Edit Unit := do
  putProperty (Property.single n.path Vocab.Name.uuid (.string n.identifier)).guard
  putProperty (Property.single n.path Vocab.Name.created (.date now)).guard
  putProperty (Property.single n.path Vocab.Name.lastModified (.date now)).guard

/-- The node that has just been created at a path. -/
def createdNode (path : String) : Edit Node := do
  match (← get).node? path with
  | some n => pure n
  | none => throw (.repository (.nodeVanished path))

/-- Creates a container of the repository. -/
def createContainer (d : Draws) (path : String) : Edit Node := do
  let n ← addNodeAt (d.identifier 0) path Vocab.Name.ntFolder
  addMixin path Vocab.Name.fedoraContainer
  stampCreated d.now n
  createdNode path

/-- Creates a description at a path, and below it the content with its bytes, their digest and
their number. -/
def createBinary (d : Draws) (path : String) (bytes : Text.Bytes) (mimeType : String) :
    Edit Node := do
  let description ← addNodeAt (d.identifier 0) path Vocab.Name.ntFile
  addMixin path Vocab.Name.fedoraDescription
  stampCreated d.now description
  let contentPath := Path.child path Vocab.Name.content
  let content ← addNodeAt (d.identifier 1) contentPath Vocab.Name.ntResource
  addMixin contentPath Vocab.Name.fedoraBinary
  stampCreated d.now content
  putProperty (.single contentPath Vocab.Name.data (.binary bytes))
  putProperty (Property.single contentPath Vocab.Name.mimeType (.string mimeType)).guard
  putProperty
    (.single contentPath Vocab.Name.contentDigest (.uri (DigestAlgorithm.sha1.digestIri bytes)))
  putProperty (.single contentPath Vocab.Name.contentSize (.long bytes.length))
  createdNode path

end Workspace

namespace Mutation

/-- What a mutation does to a workspace. -/
def edit (d : Draws) : Mutation → Edit Outcome
  | addNode path primaryType => .node <$> Workspace.addNodeAt (d.identifier 0) path primaryType
  | createContainer path => .node <$> Workspace.createContainer d path
  | createBinary path bytes mimeType => .node <$> Workspace.createBinary d path bytes mimeType
  | addMixin path mixin => (fun _ => .done) <$> Workspace.addMixin path mixin
  | removeMixin path mixin => (fun _ => .done) <$> Workspace.removeMixin path mixin
  | removeNode path => (fun _ => .done) <$> Workspace.removeNode path
  | putProperty p => (fun _ => .done) <$> Workspace.putProperty p
  | removeProperty path name => .property <$> Workspace.removeProperty path name
  | checkin path labels created =>
      .version <$> Workspace.checkin d.identifier path labels (created.getD d.now)
  | addVersionLabel path version label =>
      (fun _ => .done) <$> Workspace.addVersionLabel path version label

/-- The path at which a mutation adds a node of its own. -/
def newPath? : Mutation → Option String
  | addNode path _ | createContainer path | createBinary path _ _ => some path
  | _ => none

/-- The path of the node that a mutation removes. -/
def removedPath? : Mutation → Option String
  | removeNode path => some path
  | _ => none

/-- The path of a mutation that is refused before it writes, since the path has no parent. -/
def orphan? (m : Mutation) : Option String :=
  m.newPath?.filter fun path => (Path.parent? path).isNone

end Mutation

/-! ### Programs that follow edits -/

namespace Session

variable {α β : Type} {committed : Workspace}

/-- On a session with a staged copy, a program does to the copy what an edit does. -/
def Follows (committed : Workspace) (work : Work α) (e : Edit α) : Prop :=
  ∀ s w, s.live = true → s.staged = some w → work.run s = (write committed e).run s

theorem run_write (committed : Workspace) (e : Edit α) {s : Session} (hs : s.live = true) :
    (write committed e).run s =
      match e.run (s.current committed) with
      | .ok a w => .ok a { s with staged := some w }
      | .error error w => .error error { s with staged := some w } :=
  if_pos hs

theorem follows_write (committed : Workspace) (e : Edit α) :
    Follows committed (write committed e) e := fun _ _ _ _ => rfl

theorem follows_throw (committed : Workspace) (error : Error) :
    Follows committed (throw error : Work α) (throw error) := by
  intro s w hlive hstaged
  rw [run_write _ _ hlive, current, hstaged]
  obtain ⟨workspace, staged, live⟩ := s
  subst hstaged
  rfl

/-- **A write and what follows it are one write.** -/
theorem write_bind {e : Edit α} {work : α → Work β} {f : α → Edit β}
    (h : ∀ a, Follows committed (work a) (f a)) :
    write committed e >>= work = write committed (e >>= f) := by
  funext s
  change ((write committed e >>= work : Work β)).run s = (write committed (e >>= f)).run s
  cases hlive : s.live with
  | false => rw [EStateM.run_bind, write_of_closed _ _ hlive, write_of_closed _ _ hlive]
  | true =>
      rw [EStateM.run_bind, run_write _ _ hlive, run_write _ _ hlive, EStateM.run_bind]
      cases e.run (s.current committed) with
      | error error w => rfl
      | ok a w =>
          have hrest := h a { s with staged := some w } w hlive rfl
          rw [run_write _ _ (by exact hlive)] at hrest
          simp only [hrest, current, Option.getD_some]

theorem follows_bind {work : Work α} {e : Edit α} {more : α → Work β} {f : α → Edit β}
    (h : Follows committed work e) (hf : ∀ a, Follows committed (more a) (f a)) :
    Follows committed (work >>= more) (e >>= f) := by
  intro s w hlive hstaged
  rw [← write_bind hf, EStateM.run_bind, EStateM.run_bind, h s w hlive hstaged]

theorem write_map (f : α → β) (e : Edit α) :
    f <$> write committed e = write committed (f <$> e) := by
  funext s
  change ((f <$> write committed e : Work β)).run s = (write committed (f <$> e)).run s
  cases hlive : s.live with
  | false =>
      rw [map_eq_pure_bind, EStateM.run_bind, write_of_closed _ _ hlive,
        write_of_closed _ _ hlive]
  | true =>
      rw [map_eq_pure_bind, map_eq_pure_bind, EStateM.run_bind, run_write _ _ hlive,
        run_write _ _ hlive, EStateM.run_bind]
      cases e.run (s.current committed) <;> rfl

/-! ### The parts of mutations -/

theorem addNode_eq_write {path parent : String} (hparent : Path.parent? path = some parent)
    (identifier primaryType : String) :
    addNode committed identifier path primaryType =
      write committed (Workspace.addNodeAt identifier path primaryType) := by
  rw [addNode, Workspace.addNodeAt, hparent]

theorem follows_addNode (identifier path primaryType : String) :
    Follows committed (addNode committed identifier path primaryType)
      (Workspace.addNodeAt identifier path primaryType) := by
  cases hparent : Path.parent? path with
  | none =>
      rw [addNode, Workspace.addNodeAt, hparent]
      exact follows_throw committed _
  | some parent =>
      rw [addNode_eq_write hparent]
      exact follows_write committed _

theorem follows_stampCreated (now : Instant) (n : Node) :
    Follows committed (stampCreated committed now n) (Workspace.stampCreated now n) :=
  follows_bind (follows_write _ _) fun _ =>
    follows_bind (follows_write _ _) fun _ => follows_write _ _

theorem follows_createdNode (path : String) :
    Follows committed (createdNode committed path) (Workspace.createdNode path) := by
  intro s w hlive hstaged
  have hcurrent : s.current committed = w := by rw [current, hstaged, Option.getD_some]
  rw [run_write _ _ hlive, createdNode, Workspace.createdNode]
  simp only [EStateM.run_bind, EStateM.run_get, hcurrent]
  obtain ⟨workspace, staged, live⟩ := s
  subst hstaged
  cases w.node? path <;> rfl

theorem createContainer_eq_write {path parent : String}
    (hparent : Path.parent? path = some parent) (d : Draws) :
    createContainer committed d path = write committed (Workspace.createContainer d path) := by
  rw [createContainer, addNode_eq_write hparent]
  exact write_bind fun n => follows_bind (follows_write _ _) fun _ =>
    follows_bind (follows_stampCreated d.now n) fun _ => follows_createdNode path

theorem createBinary_eq_write {path parent : String}
    (hparent : Path.parent? path = some parent) (d : Draws) (bytes : Text.Bytes)
    (mimeType : String) :
    createBinary committed d path bytes mimeType =
      write committed (Workspace.createBinary d path bytes mimeType) := by
  rw [createBinary, addNode_eq_write hparent]
  refine write_bind fun description => follows_bind (follows_write _ _) fun _ =>
    follows_bind (follows_stampCreated d.now description) fun _ =>
    follows_bind (follows_addNode _ _ _) fun content => ?_
  exact follows_bind (follows_write _ _) fun _ =>
    follows_bind (follows_stampCreated d.now content) fun _ =>
    follows_bind (follows_write _ _) fun _ => follows_bind (follows_write _ _) fun _ =>
    follows_bind (follows_write _ _) fun _ => follows_bind (follows_write _ _) fun _ =>
    follows_createdNode path

end Session

/-! ### Mutations -/

namespace Mutation

open Session (write write_map)

variable {committed : Workspace} {m : Mutation} {path : String}

theorem orphan?_eq_some_iff :
    m.orphan? = some path ↔ m.newPath? = some path ∧ Path.parent? path = none := by
  rw [orphan?, Option.filter_eq_some_iff, Option.isNone_iff_eq_none]

theorem exists_parent (hnew : m.newPath? = some path) (h : m.orphan? = none) :
    ∃ parent, Path.parent? path = some parent := by
  rw [← Option.ne_none_iff_exists']
  intro hparent
  rw [orphan?_eq_some_iff.2 ⟨hnew, hparent⟩] at h
  exact absurd h (by simp)

/-- The refusal of a node at a path without a parent comes before any write. -/
theorem run_of_orphan (d : Draws) (h : m.orphan? = some path) :
    m.run committed d = throw (.invalidPath (.noParent path)) := by
  obtain ⟨hnew, hparent⟩ := orphan?_eq_some_iff.1 h
  cases m with
  | addNode | createContainer | createBinary =>
      obtain rfl := Option.some.inj hnew
      funext s
      simp only [run, Session.addNode, Session.createContainer, Session.createBinary, hparent]
      rfl
  | _ => simp [newPath?] at hnew

theorem run_edit_of_orphan (d : Draws) (h : m.orphan? = some path) (w : Workspace) :
    (m.edit d).run w = .error (.invalidPath (.noParent path)) w := by
  obtain ⟨hnew, hparent⟩ := orphan?_eq_some_iff.1 h
  cases m with
  | addNode | createContainer | createBinary =>
      obtain rfl := Option.some.inj hnew
      simp only [edit, Workspace.createContainer, Workspace.createBinary, Workspace.addNodeAt,
        hparent]
      rfl
  | _ => simp [newPath?] at hnew

/-- **A mutation is one write.** -/
theorem run_eq (d : Draws) (h : m.orphan? = none) :
    m.run committed d = write committed (m.edit d) := by
  cases m with
  | addNode path primaryType =>
      obtain ⟨parent, hparent⟩ := exists_parent rfl h
      rw [run, Session.addNode_eq_write hparent, write_map, edit]
  | createContainer path =>
      obtain ⟨parent, hparent⟩ := exists_parent rfl h
      rw [run, Session.createContainer_eq_write hparent, write_map, edit]
  | createBinary path bytes mimeType =>
      obtain ⟨parent, hparent⟩ := exists_parent rfl h
      rw [run, Session.createBinary_eq_write hparent, write_map, edit]
  | _ => exact write_map _ _

/-- A mutation of an open session leaves a staged copy with its edit made, unless it is refused
before it writes.  A closed session is left as it is. -/
theorem leftBy_run (d : Draws) (s : Session) :
    leftBy (m.run committed d) s =
      if s.live ∧ m.orphan? = none then
        { s with staged := some (leftBy (m.edit d) (s.current committed)) }
      else s := by
  cases horphan : m.orphan? with
  | some path =>
      rw [run_of_orphan d horphan, if_neg (by simp)]
      rfl
  | none =>
      rw [run_eq d horphan, leftBy]
      cases hlive : s.live with
      | false => simp [Session.write_of_closed _ _ hlive]
      | true =>
          rw [Session.run_write _ _ hlive, leftBy, if_pos ⟨rfl, rfl⟩]
          cases (m.edit d).run (s.current committed) <;> simp only [hlive]

theorem workspace_leftBy_run (committed : Workspace) (d : Draws) (m : Mutation) (s : Session) :
    (leftBy (m.run committed d) s).workspace = s.workspace := by
  rw [leftBy_run]
  split <;> rfl

theorem live_leftBy_run (committed : Workspace) (d : Draws) (m : Mutation) (s : Session) :
    (leftBy (m.run committed d) s).live = s.live := by
  rw [leftBy_run]
  split <;> rfl

end Mutation

/-! ### What creations lead to -/

namespace Edit

open Workspace

variable {P Q R : Workspace → Prop} {identifier path primaryType : String} {v : Nat}

theorem leads_createdNode (path : String) : Leads P P (createdNode path) := by
  intro w hw
  rw [leftBy, createdNode, EStateM.run_bind, EStateM.run_get]
  simp only
  cases w.node? path <;> exact hw

theorem leads_addNodeAt (hrefused : ∀ w, P w → Q w)
    (hadded : ∀ w parent above, P w → Path.parent? path = some parent →
      w.node? parent = some above → w.nodes.contains path = false →
      Q (w.insertNode (.plain path identifier primaryType))) :
    Leads P Q (addNodeAt identifier path primaryType) := by
  rw [addNodeAt]
  cases hparent : Path.parent? path with
  | none => exact leads_throw _ hrefused
  | some parent =>
      exact leads_addNode hrefused fun w above hw habove hfree =>
        hadded w parent above hw hparent habove hfree

/-- What follows the addition of a node is given the node. -/
theorem leads_addNodeAt_bind {β : Type} {f : Node → Edit β}
    (hadd : Leads P Q (addNodeAt identifier path primaryType))
    (hf : Leads Q R (f (.plain path identifier primaryType))) (himp : ∀ w, Q w → R w) :
    Leads P R (addNodeAt identifier path primaryType >>= f) := by
  refine leads_bind_of_run hadd (fun w n left hrun => ?_) himp
  have hn : n = .plain path identifier primaryType := by
    rw [addNodeAt] at hrun
    cases hparent : Path.parent? path with
    | none =>
        rw [hparent] at hrun
        exact nomatch hrun
    | some parent =>
        rw [hparent] at hrun
        exact eq_plain_of_addNode_run hrun
  rw [hn]
  exact hf

theorem leads_stampCreated {now : Instant} {n : Node}
    (hput : ∀ p ∈ stamps now n, Leads P P (putProperty p)) : Leads P P (stampCreated now n) := by
  refine leads_bind (hput _ (by simp [stamps])) (fun _ => ?_) fun _ => id
  exact leads_bind (hput _ (by simp [stamps])) (fun _ => hput _ (by simp [stamps])) fun _ => id

/-- A container is created by adding its node, one mixin and the stamps. -/
theorem leads_createContainer {d : Draws}
    (hadd : Leads P Q (addNodeAt (d.identifier 0) path Vocab.Name.ntFolder))
    (hmixin : Leads Q Q (addMixin path Vocab.Name.fedoraContainer))
    (hput : ∀ p ∈ stamps d.now (.plain path (d.identifier 0) Vocab.Name.ntFolder),
      Leads Q Q (putProperty p)) : Leads P Q (createContainer d path) := by
  refine leads_addNodeAt_bind hadd ?_ fun _ => id
  refine leads_bind hmixin (fun _ => ?_) fun _ => id
  exact leads_bind (leads_stampCreated hput) (fun _ => leads_createdNode path) fun _ => id

/-- A binary is created by adding its description as a container is added, and below it the
content, with properties of its own. -/
theorem leads_createBinary {d : Draws} (bytes : Text.Bytes) (mimeType : String)
    (hadd : Leads P Q (addNodeAt (d.identifier 0) path Vocab.Name.ntFile))
    (hmixin : Leads Q Q (addMixin path Vocab.Name.fedoraDescription))
    (hput : ∀ p ∈ stamps d.now (.plain path (d.identifier 0) Vocab.Name.ntFile),
      Leads Q Q (putProperty p)) (himp : ∀ w, Q w → R w)
    (haddContent : Leads Q R
      (addNodeAt (d.identifier 1) (Path.child path Vocab.Name.content) Vocab.Name.ntResource))
    (hmixinContent : Leads R R
      (addMixin (Path.child path Vocab.Name.content) Vocab.Name.fedoraBinary))
    (hputContent : ∀ p : Property, p.owner = Path.child path Vocab.Name.content →
      Leads R R (putProperty p)) : Leads P R (createBinary d path bytes mimeType) := by
  refine leads_addNodeAt_bind hadd ?_ himp
  refine leads_bind hmixin (fun _ => ?_) himp
  refine leads_bind (leads_stampCreated hput) (fun _ => ?_) himp
  refine leads_addNodeAt_bind haddContent ?_ fun _ => id
  refine leads_bind hmixinContent (fun _ => ?_) fun _ => id
  refine leads_bind (leads_stampCreated fun p hp => hputContent p (owner_of_mem_stamps hp))
    (fun _ => ?_) fun _ => id
  refine leads_bind (hputContent _ rfl) (fun _ => ?_) fun _ => id
  refine leads_bind (hputContent _ rfl) (fun _ => ?_) fun _ => id
  refine leads_bind (hputContent _ rfl) (fun _ => ?_) fun _ => id
  exact leads_bind (hputContent _ rfl) (fun _ => leads_createdNode path) fun _ => id

/-! ### What no edit takes away -/

/-- A property of workspaces that no edit takes away. -/
structure Kept (P : Workspace → Prop) : Prop where
  addNodeAt : ∀ identifier path primaryType,
    Leads P P (Workspace.addNodeAt identifier path primaryType)
  changeMixins : ∀ path change, Leads P P (Workspace.changeMixins path change)
  removeNode : ∀ path, Leads P P (Workspace.removeNode path)
  putProperty : ∀ p, Leads P P (Workspace.putProperty p)
  removeProperty : ∀ path name, Leads P P (Workspace.removeProperty path name)
  checkin : ∀ identifiers path labels created,
    Leads P P (Workspace.checkin identifiers path labels created)
  addVersionLabel : ∀ path version label, Leads P P (Workspace.addVersionLabel path version label)

/-- A property of workspaces that no edit takes away, as long as nodes are added at some paths only
and removed at some paths only.  With a binary its content is added as well. -/
structure KeptAt (added removed : String → Prop) (P : Workspace → Prop) : Prop where
  content : ∀ path, added path → added (Path.child path Vocab.Name.content)
  addNodeAt : ∀ identifier path primaryType, added path →
    Leads P P (Workspace.addNodeAt identifier path primaryType)
  changeMixins : ∀ path change, Leads P P (Workspace.changeMixins path change)
  removeNode : ∀ path, removed path → Leads P P (Workspace.removeNode path)
  putProperty : ∀ p, Leads P P (Workspace.putProperty p)
  removeProperty : ∀ path name, Leads P P (Workspace.removeProperty path name)
  checkin : ∀ identifiers path labels created,
    Leads P P (Workspace.checkin identifiers path labels created)
  addVersionLabel : ∀ path version label, Leads P P (Workspace.addVersionLabel path version label)

/-- No mutation that adds and removes nodes at such paths takes it away either. -/
theorem KeptAt.edit {added removed : String → Prop} (hkept : KeptAt added removed P) (d : Draws)
    (m : Mutation) (hadded : ∀ path, m.newPath? = some path → added path)
    (hremoved : ∀ path, m.removedPath? = some path → removed path) : Leads P P (m.edit d) := by
  cases m with
  | addNode path primaryType => exact leads_map (hkept.addNodeAt _ _ _ (hadded path rfl))
  | createContainer path =>
      exact leads_map (leads_createContainer (hkept.addNodeAt _ _ _ (hadded path rfl))
        (hkept.changeMixins _ _) fun p _ => hkept.putProperty p)
  | createBinary path bytes mimeType =>
      have hpath := hadded path rfl
      exact leads_map (leads_createBinary bytes mimeType (hkept.addNodeAt _ _ _ hpath)
        (hkept.changeMixins _ _) (fun p _ => hkept.putProperty p) (fun _ => id)
        (hkept.addNodeAt _ _ _ (hkept.content path hpath)) (hkept.changeMixins _ _)
        fun p _ => hkept.putProperty p)
  | addMixin path mixin => exact leads_map (hkept.changeMixins _ _)
  | removeMixin path mixin => exact leads_map (hkept.changeMixins _ _)
  | removeNode path => exact leads_map (hkept.removeNode _ (hremoved path rfl))
  | putProperty p => exact leads_map (hkept.putProperty _)
  | removeProperty path name => exact leads_map (hkept.removeProperty _ _)
  | checkin path labels created => exact leads_map (hkept.checkin _ _ _ _)
  | addVersionLabel path version label => exact leads_map (hkept.addVersionLabel _ _ _)

theorem Kept.keptAt (hkept : Kept P) : KeptAt (fun _ => True) (fun _ => True) P where
  content _ := id
  addNodeAt identifier path primaryType _ := hkept.addNodeAt identifier path primaryType
  changeMixins := hkept.changeMixins
  removeNode path _ := hkept.removeNode path
  putProperty := hkept.putProperty
  removeProperty := hkept.removeProperty
  checkin := hkept.checkin
  addVersionLabel := hkept.addVersionLabel

/-- No mutation takes away what no edit takes away. -/
theorem Kept.edit (hkept : Kept P) (d : Draws) (m : Mutation) : Leads P P (m.edit d) :=
  hkept.keptAt.edit d m (fun _ _ => trivial) fun _ _ => trivial

theorem keepsVersion_addNodeAt (identifier path primaryType : String) :
    KeepsVersion v (addNodeAt identifier path primaryType) :=
  leads_addNodeAt (fun _ => id) fun _ _ _ hw _ _ _ => hw

theorem kept_version (v : Nat) : Kept (·.version = v) where
  addNodeAt := keepsVersion_addNodeAt
  changeMixins := keepsVersion_changeMixins
  removeNode := keepsVersion_removeNode
  putProperty := keepsVersion_putProperty
  removeProperty := keepsVersion_removeProperty
  checkin := keepsVersion_checkin
  addVersionLabel := keepsVersion_addVersionLabel

/-- No mutation changes the version of a state. -/
theorem keepsVersion_edit (d : Draws) (m : Mutation) : KeepsVersion v (m.edit d) :=
  (kept_version v).edit d m

end Edit

end LinkedStore
