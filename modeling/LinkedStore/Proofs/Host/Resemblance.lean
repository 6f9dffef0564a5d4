import LinkedStore.Proofs.Host.Identified
import LinkedStore.Proofs.Host.Reading
import LinkedStore.Proofs.Host.Snapshot

/-!
# Snapshots look like their nodes

A frozen copy is a node of a type of its own.  The types of the node that it was copied from are
recorded in properties of the copy, in their order, and over properties of the same names that the
node may have had.  A reader takes the types of a copy from there, so that the copy has the types
of its node, all types above them, and the role and the variant that they give.

The node is found again by the identifier that is recorded in the copy.  This needs identifiers
that are new when they are drawn.

## Main definitions

* `Reader.Answers` : a reader answers from a state and refuses nothing.
* `Resource.LooksLike` : two resources have the same types, role and variant.

## Main statements

* `Workspace.FrozenCopy.declaredTypes_eq` : a copy declares the types of its node.
* `Workspace.FrozenCopy.looksLike` : a copy looks like its node.
* `Host.looksLike_of_checkin` : a checkin that succeeds makes copies that look like their nodes.
-/

namespace LinkedStore

variable {a : Reader} {w w' : Workspace}

/-! ### Readers that refuse nothing -/

/-- The reader answers from the state, and refuses nothing that it is asked about nodes, their
properties and the types above a type. -/
structure Reader.Answers (a : Reader) (w : Workspace) : Prop where
  node : ∀ path, a.node path = .ok (w.node? path)
  nodeByIdentifier : ∀ identifier, a.nodeByIdentifier identifier = .ok (w.byIdentifier? identifier)
  property : ∀ path name, a.property path name = .ok (w.property? path name)
  nodeType : ∀ name, ∃ found, a.nodeType name = .ok found

/-- An open session answers from the state that it works on. -/
theorem Session.answers_reader (r : Repository) {s : Session} (hlive : s.live = true) :
    (s.reader r).Answers (s.current (r.committed s.workspace)) where
  node _ := if_pos hlive
  nodeByIdentifier _ := if_pos hlive
  property _ _ := if_pos hlive
  nodeType _ := ⟨_, if_pos hlive⟩

namespace Reader.Answers

theorem exists_closeQueue (ha : a.Answers w) (steps : Nat) (queue seen : List String) :
    ∃ types, TypeClosure.closeQueue a steps queue seen = .ok types := by
  induction steps generalizing queue seen with
  | zero => cases queue <;> exact ⟨[], rfl⟩
  | succ steps ih =>
      cases queue with
      | nil => exact ⟨[], rfl⟩
      | cons name queue =>
          obtain ⟨found, hfound⟩ := ha.nodeType name
          obtain ⟨above, habove⟩ : ∃ above, TypeClosure.above a name = .ok above := by
            rw [TypeClosure.above, hfound]
            cases found <;> exact ⟨_, rfl⟩
          obtain ⟨rest, hrest⟩ := ih (queue ++ TypeClosure.fresh seen above)
            (seen ++ TypeClosure.fresh seen above)
          exact ⟨name :: rest,
            bind_eq_ok_iff.2 ⟨above, habove, bind_eq_ok_iff.2 ⟨rest, hrest, rfl⟩⟩⟩

/-- The closure of a list of types is found. -/
theorem exists_close (ha : a.Answers w) (declared : List String) :
    ∃ types, TypeClosure.close a declared = .ok types :=
  ha.exists_closeQueue _ _ _

/-- The types recorded under a name are the texts of the values of that property. -/
theorem recordedTypes_eq (ha : a.Answers w) {n : Node} {name : String} {p : Property}
    (hp : w.property? n.path name = some p) :
    n.recordedTypes a name = .ok (p.values.filterMap Value.text?) := by
  rw [Node.recordedTypes, ha.property, hp]
  rfl

end Reader.Answers

theorem Node.declaredTypes_of_live {n : Node} (hlive : n.isFrozen = false) (a : Reader) :
    n.declaredTypes a = .ok n.types := by
  rw [declaredTypes, hlive]
  rfl

namespace Resource

/-- A node has the role that its declared types give it. -/
theorem ofNode_eq {n : Node} {types : List String} (htypes : n.declaredTypes a = .ok types) :
    ofNode a n = .ok ⟨n, .ofTypes types, a.workspace⟩ := by
  rw [ofNode, htypes]
  rfl

/-- The resources have the same types in the same order, the same types above them, the same role
and the same variant. -/
structure LooksLike (a : Reader) (x y : Resource) : Prop where
  declaredTypes : ∃ types, x.node.declaredTypes a = .ok types ∧ y.node.declaredTypes a = .ok types
  types : ∃ types, x.types a = .ok types ∧ y.types a = .ok types
  kind : x.kind = y.kind
  variant : ∃ variant, x.variant a = .ok variant ∧ y.variant a = .ok variant

/-- Resources that declare the same types look alike. -/
theorem looksLike_of_declaredTypes (ha : a.Answers w) {x y : Resource} {declared : List String}
    (hx : x.node.declaredTypes a = .ok declared) (hy : y.node.declaredTypes a = .ok declared)
    (hxrole : ofNode a x.node = .ok x) (hyrole : ofNode a y.node = .ok y) : x.LooksLike a y := by
  obtain ⟨types, htypes⟩ := ha.exists_close declared
  have hclosed {z : Resource} (hz : z.node.declaredTypes a = .ok declared) :
      z.types a = .ok types := bind_eq_ok_iff.2 ⟨declared, hz, htypes⟩
  have hkind {z : Resource} (hz : z.node.declaredTypes a = .ok declared)
      (hrole : ofNode a z.node = .ok z) : z.kind = .ofTypes declared := by
    rw [ofNode_eq hz] at hrole
    exact (congrArg Resource.kind (Except.ok.inj hrole)).symm
  exact ⟨⟨declared, hx, hy⟩, ⟨types, hclosed hx, hclosed hy⟩,
    (hkind hx hxrole).trans (hkind hy hyrole).symm,
    ⟨ContainerVariant.ofTypes types, bind_eq_ok_iff.2 ⟨types, hclosed hx, rfl⟩,
      bind_eq_ok_iff.2 ⟨types, hclosed hy, rfl⟩⟩⟩

end Resource

/-! ### Frozen copies -/

/-- The node that a copy is stored as. -/
theorem Node.isFrozen_plain (path identifier : String) :
    (Node.plain path identifier Vocab.Name.ntFrozenNode).isFrozen = true :=
  Bool.or_eq_true_iff.2 (.inl (beq_self_eq_true _))

namespace Workspace

variable {q : Node} {place identifier : String}

/-- **A copy declares the types of its node**, in their order. -/
theorem FrozenCopy.declaredTypes_eq (h : FrozenCopy w w' q place identifier) (ha : a.Answers w') :
    (Node.plain place identifier Vocab.Name.ntFrozenNode).declaredTypes a = .ok q.types := by
  have hprimary := ha.recordedTypes_eq
    (n := .plain place identifier Vocab.Name.ntFrozenNode) h.primaryType
  have hmixins := ha.recordedTypes_eq
    (n := .plain place identifier Vocab.Name.ntFrozenNode) h.mixins
  have htexts : (q.mixins.map Value.name).filterMap Value.text? = q.mixins := by
    rw [List.filterMap_map]
    exact List.filterMap_some
  rw [Node.declaredTypes, Node.isFrozen_plain, if_pos rfl, hprimary, hmixins]
  simp only [Property.guard, Property.single, Property.many, htexts]
  rfl

/-- The node of a copy is found by the identifier that the copy has recorded. -/
theorem FrozenCopy.unfrozen_eq (h : FrozenCopy w w' q place identifier) (ha : a.Answers w')
    (hq : w'.byIdentifier? q.identifier = some q) {x y : Resource}
    (hx : x.node = .plain place identifier Vocab.Name.ntFrozenNode)
    (hy : Resource.ofNode a q = .ok y) : x.unfrozen a = .ok (some y) := by
  have huuid : x.textProperty a Vocab.Name.frozenUuid = .ok (some q.identifier) := by
    rw [Resource.textProperty, Resource.property, Resource.path, hx, ha.property]
    simp only [Node.plain, h.uuid]
    rfl
  rw [Resource.unfrozen, hx, Node.isFrozen_plain, if_pos rfl, huuid]
  exact Resource.byIdentifier?_eq_some_iff.2
    ⟨q, (ha.nodeByIdentifier _).trans (congrArg _ hq), hy⟩

/-- A node that is reached is stored at its path. -/
theorem Filed.node?_of_below (hw : w.Filed) {path : String} {names : List String}
    (hq : w.Below path names q) : w.node? q.path = some q := by
  induction hq with
  | here hn => rwa [hw.path hn]
  | child _ _ _ ih => exact ih

end Workspace

namespace Host

variable {r : Repository} {h' : Host} {calls : List Call} {number : Nat} {d : Draws}

/-- **A snapshot looks like its node.**  After a checkin that succeeds, whatever has happened on the
host before, each node that has been copied and is no copy itself is found at its path, and its copy
at the same names below the version.  The copy is frozen and looks like the node; if every
identifier that is drawn is new, then the copy leads back to the node. -/
theorem looksLike_of_checkin (hr : r.IsNew)
    (hproper : ∀ path n, (((Host.mk r []).run calls).current number).node? path = some n →
      Path.Proper path)
    {path : String} {labels : List String} {created : Option Instant} {v : Version}
    (hrun : (mutate number d (.checkin path labels created)).run ((Host.mk r []).run calls) =
      .ok (.version v) h')
    {names : List String} {q : Node}
    (hq : (((Host.mk r []).run calls).current number).Below path names q)
    (hlive : q.isFrozen = false) :
    let a := (Access.direct number).reader h'
    q.path = Path.descend path names ∧
      ∃ x y, Resource.at? a (Path.descend v.frozenPath names) = .ok (some x) ∧
        Resource.at? a q.path = .ok (some y) ∧ y.node = q ∧
        x.node.isFrozen = true ∧ x.LooksLike a y ∧
        (Fresh r (calls ++ [.mutate number d (.checkin path labels created)]) →
          x.unfrozen a = .ok (some y)) := by
  intro a
  have hfiled := filed_current hr calls number
  have hsnapshot := hfiled.snapshot_of_checkin (fun hn => hproper _ _ hn)
    (checkin_run_of_mutate hrun)
  have hsession := (live_of_mutate rfl hrun).2
  have ha : a.Answers (h'.current number) := Session.answers_reader _ hsession
  obtain ⟨k, hcopy⟩ := hsnapshot.copied names q hq
  have hkept : (h'.current number).node? q.path = some q :=
    hsnapshot.kept _ _ (hfiled.node?_of_below hq)
  have hx := Resource.ofNode_eq (hcopy.declaredTypes_eq ha)
  have hy := Resource.ofNode_eq (Node.declaredTypes_of_live hlive a)
  refine ⟨hsnapshot.relative names q hq, _, _,
    Resource.at?_eq_some_iff.2 ⟨_, (ha.node _).trans (congrArg _ hcopy.node), hx⟩,
    Resource.at?_eq_some_iff.2 ⟨q, (ha.node _).trans (congrArg _ hkept), hy⟩, rfl,
    Node.isFrozen_plain _ _,
    Resource.looksLike_of_declaredTypes ha (hcopy.declaredTypes_eq ha)
      (Node.declaredTypes_of_live hlive a) hx hy, fun hfresh => ?_⟩
  have hidentified := identified_current hr hfresh number
  rw [run_concat, ← (session_run_of_mutate hrun).1] at hidentified
  exact hcopy.unfrozen_eq ha (hidentified.byIdentifier? hkept) rfl hy

/-- Mutations that give a versionable container a child.  The child has a property of the name under
which a copy of it will record its type. -/
def portrait : List Mutation :=
  [.createContainer "/a", .addMixin "/a" Vocab.Name.mixVersionable,
    .createContainer "/a/b", .addMixin "/a/b" Vocab.Name.ldpDirectContainer,
    .putProperty (.single "/a/b" Vocab.Name.frozenPrimaryType (.string "b"))]

/-- The child. -/
def sitter : Node :=
  ⟨"/a/b", "2:0", Vocab.Name.ntFolder, [Vocab.Name.fedoraContainer, Vocab.Name.ldpDirectContainer]⟩

theorem proper_portrait {path : String} {n : Node}
    (hn : (((Host.start "root").run (runOf portrait)).current 0).node? path = some n) :
    Path.Proper path :=
  let a : Path.Segment := ⟨"a", by decide, by decide⟩
  Workspace.proper_of_keys [[], [a], [a, ⟨"b", by decide, by decide⟩]] (by decide +kernel) hn

/-- The copy of the child looks like the child and leads back to it. -/
theorem looksLike_of_checkin_portrait :
    let checkin : Mutation := .checkin "/a" [] none
    ∃ v h', (mutate 0 (numbered 5) checkin).run ((Host.start "root").run (runOf portrait)) =
        .ok (.version v) h' ∧
      let a := (Access.direct 0).reader h'
      ∃ x y, Resource.at? a (Path.child v.frozenPath "b") = .ok (some x) ∧
        Resource.at? a "/a/b" = .ok (some y) ∧
        x.node.isFrozen = true ∧ x.LooksLike a y ∧ x.unfrozen a = .ok (some y) := by
  intro checkin
  have hruns : (match (mutate 0 (numbered 5) checkin).run
        ((Host.start "root").run (runOf portrait)) with
      | .ok (.version _) _ => true
      | _ => false) = true := by decide +kernel
  split at hruns
  · rename_i v h' hrun
    have hbelow : (((Host.start "root").run (runOf portrait)).current 0).Below "/a" [sitter.name]
        sitter := .child (by decide +kernel) (by decide) (.here (by decide +kernel))
    rw [show sitter.name = "b" by decide] at hbelow
    obtain ⟨-, x, y, hx, hy, -, hfrozen, hlike, hunfrozen⟩ :=
      looksLike_of_checkin (Repository.isNew_start "root") (fun _ _ => proper_portrait) hrun hbelow
        (by decide)
    exact ⟨v, h', hrun, x, y, hx, hy, hfrozen, hlike,
      hunfrozen (fresh_runOf (portrait ++ [checkin]))⟩
  · exact nomatch hruns

end Host

end LinkedStore
