import LinkedStore.Description.Assembly
import LinkedStore.Proofs.Host.Reading
import LinkedStore.Proofs.Store.Freeze

/-!
# The halves of a binary

The description of a binary and its content are two nodes of one resource.  Either node leads to
the other, and what a resource states of its own, of its place, of its history and of what refers
to it is read from both of them, so that it does not matter which of the two is described.

## Main definitions

* `Resource.Halves` : a description and its content, as a reader finds them.
* `Description.bothHalves` : the aspects that are read from both halves.
* `Description.OneDescription` : the two halves lead to each other and are described alike.

## Main statements

* `Resource.halves_of_at?` : what lies below a description as its content is its other half.
* `Description.generate_eq_of_mem_bothHalves` : an aspect that is read from both halves.
* `Description.halves_share_description` : the halves are described alike, in every state of a host.
-/

namespace LinkedStore

namespace Resource

variable {a : Reader} {w : Workspace} {x content : Resource}

/-- The description of a binary and its content, as a reader finds them. -/
structure Halves (a : Reader) (x content : Resource) : Prop where
  description : x.kind = .description
  binary : content.kind = .binary
  foundDescription : at? a x.path = .ok (some x)
  foundContent : at? a content.path = .ok (some content)
  below : content.path = Path.child x.path Vocab.Name.content
  above : Path.parent? content.path = some x.path

/-- What is found at the path of the content of a description is its other half. -/
theorem halves_of_at? (ha : a.ReadsFrom w) (hw : w.Filed) {path : String}
    (hx : at? a path = .ok (some x)) (hdescription : x.kind = .description)
    (hcontent : at? a (Path.child path Vocab.Name.content) = .ok (some content))
    (hbinary : content.kind = .binary) : Halves a x content := by
  have hpath {path : String} {y : Resource} (hy : at? a path = .ok (some y)) :
      w.node? path = some y.node ∧ y.path = path := by
    obtain ⟨n, hn, hrole⟩ := at?_eq_some_iff.1 hy
    obtain rfl := node_of_ofNode hrole
    exact ⟨ha.node hn, hw.path (ha.node hn)⟩
  obtain ⟨hstored, rfl⟩ := hpath hx
  obtain ⟨-, hbelow⟩ := hpath hcontent
  refine ⟨hdescription, hbinary, hx, hbelow ▸ hcontent, hbelow, ?_⟩
  rw [hbelow]
  exact Path.parent?_child (hw.ne_empty hstored) Path.Segment.content

theorem require_of_at? {path : String} (hx : at? a path = .ok (some x)) :
    require a path = .ok x := by
  rw [require, hx]
  rfl

namespace Halves

variable (h : Halves a x content)

include h

theorem described_description : x.described a = .ok content := by
  rw [described, if_pos h.description, ← h.below]
  exact require_of_at? h.foundContent

theorem described_content : content.described a = .ok content := by
  rw [described, if_neg (by simp [h.binary])]
  rfl

theorem description_description : x.description a = .ok x := by
  rw [Resource.description, if_neg (by simp [h.description])]
  rfl

theorem description_content : content.description a = .ok x := by
  rw [Resource.description, if_pos h.binary, h.above]
  exact require_of_at? h.foundDescription

theorem halves_description : x.halves a = .ok [content, x] := by
  rw [halves, if_pos (.inr h.description)]
  simp only [bind, Except.bind, h.described_description, h.description_content]
  rfl

theorem halves_content : content.halves a = .ok [content, x] := by
  rw [halves, if_pos (.inl h.binary)]
  simp only [bind, Except.bind, h.described_content, h.description_content]
  rfl

/-- Both halves lie in the same container, which is the one above the description. -/
theorem container_eq : x.container a = content.container a := by
  rw [container, container, h.description_description, h.description_content]

end Halves

/-- Both halves have one term. -/
theorem Halves.subject_eq {v : View} (h : Halves v.reader x content) :
    v.subject x = v.subject content := by
  rw [View.subject, View.subject, h.described_description, h.described_content]

end Resource

namespace Description

variable {v : View} {x content : Resource}

/-! ### Aspects that are read from both halves -/

theorem model_eq (h : x.Halves v.reader content) : model v x = model v content := by
  have htypes : modelTypes v x = modelTypes v content := by
    simp only [modelTypes, h.description, h.binary]
  rw [model, model, h.subject_eq, htypes]

theorem properties_eq (h : x.Halves v.reader content) : properties v x = properties v content := by
  rw [properties, properties, h.subject_eq, h.halves_description, h.halves_content]

theorem references_eq (h : x.Halves v.reader content) : references v x = references v content := by
  rw [references, references, h.subject_eq, h.halves_description, h.halves_content]

theorem versions_eq (h : x.Halves v.reader content) : versions v x = versions v content := by
  have hhistory : historyOf v x = historyOf v content := by
    rw [historyOf, historyOf, h.described_description, h.described_content]
  rw [versions, versions, h.subject_eq, hhistory]

theorem hashFragments_eq (h : x.Halves v.reader content) :
    hashFragments v x = hashFragments v content := by
  rw [hashFragments, hashFragments, h.subject_eq, h.description_description, h.description_content]

/-- The aspects that are read from both halves of a binary. -/
def bothHalves : List Aspect := [.model, .properties, .references, .versions, .hash]

/-- An aspect that is read from both halves says the same about either: the same topic, and the same
triples and failures in the same order. -/
theorem generate_eq_of_mem_bothHalves (h : x.Halves v.reader content) {aspect : Aspect}
    (haspect : aspect ∈ bothHalves) : generate aspect v x = generate aspect v content := by
  simp only [bothHalves, List.mem_cons, List.not_mem_nil, or_false] at haspect
  rcases haspect with rfl | rfl | rfl | rfl | rfl
  · exact model_eq h
  · exact properties_eq h
  · exact references_eq h
  · exact versions_eq h
  · exact hashFragments_eq h

/-! ### The container -/

/-- A resource that is no snapshot states its container, and the root, which has none, nothing. -/
theorem statedParent_eq_container (hfrozen : x.node.isFrozen = false)
    (hroot : x.node.isRoot = true → x.description v.reader = .ok x) :
    statedParent v x = x.container v.reader := by
  cases htop : x.node.isRoot with
  | true =>
      have hpath : x.path = "/" := beq_iff_eq.1 htop
      have hancestors : Path.ancestors "/" = [] := by decide
      rw [statedParent, statesParent, htop, Resource.container, hroot htop]
      simp only [bind, Except.bind, hpath, hancestors]
      rfl
  | false =>
      rw [statedParent, statesParent, htop, hfrozen]
      rfl

/-- Both halves state the same container, unless one of them is a snapshot. -/
theorem parent_eq (h : x.Halves v.reader content) (hx : x.node.isFrozen = false)
    (hcontent : content.node.isFrozen = false) : parent v x = parent v content := by
  have hbelow : content.node.isRoot = true → content.description v.reader = .ok content := by
    intro htop
    have hpath : content.path = "/" := beq_iff_eq.1 htop
    have hnone : Path.parent? content.path = none := by
      rw [hpath]
      decide
    cases hnone.symm.trans h.above
  have hstated : statedParent v x = statedParent v content := by
    rw [statedParent_eq_container hx fun _ => h.description_description,
      statedParent_eq_container hcontent hbelow, h.container_eq]
  rw [parent, parent, h.subject_eq, hstated]

/-! ### Both halves -/

/-- The halves of a binary lead to each other and are described alike. -/
structure OneDescription (v : View) (x content : Resource) : Prop where
  described : x.described v.reader = .ok content
  description : content.description v.reader = .ok x
  /-- The same topic, and the same triples and failures in the same order, whatever the surroundings
  are when the stream is pulled. -/
  alike : ∀ aspect ∈ bothHalves, generate aspect v x = generate aspect v content
  parent : x.node.isFrozen = false → content.node.isFrozen = false →
    generate .parent v x = generate .parent v content

/-- **The halves of a binary are described alike**, in every state of a host, through whatever the
state is read, and however the nodes are named. -/
theorem halves_share_description {r : Repository} (hr : r.IsNew) (calls : List Host.Call)
    (a : Access) (hv : v.reader = a.reader ((Host.mk r []).run calls)) {path : String}
    (hx : Resource.at? v.reader path = .ok (some x)) (hdescription : x.kind = .description)
    (hcontent : Resource.at? v.reader (Path.child path Vocab.Name.content) = .ok (some content))
    (hbinary : content.kind = .binary) : OneDescription v x content := by
  have h := Resource.halves_of_at? (hv ▸ a.readsFrom _) (Host.filed_current hr calls a.number) hx
    hdescription hcontent hbinary
  exact ⟨h.described_description, h.description_content,
    fun _ haspect => generate_eq_of_mem_bothHalves h haspect, parent_eq h⟩

/-- A run that leaves a binary, with a property on either half that refers to the other one. -/
def storing : List Host.Call :=
  let d (number : Nat) : Draws := ⟨fun j => toString number ++ ":" ++ toString j, .epoch⟩
  let put (number : Nat) (path : String) (value : Value) : Host.Call :=
    .mutate 0 (d number) (.putProperty (.many path "ldp:member" [value]))
  [.opening "default", .mutate 0 (d 1) (.createBinary "/b" [] "text/plain"),
    put 2 "/b" (.reference "1:1"), put 3 "/b/jcr:content" (.weakReference "1:0")]

/-- The nodes of the run, named by IRIs. -/
def storingView : View :=
  .ofMap ⟨"http://localhost"⟩ ((Access.direct 0).reader ((Host.start "root").run storing))

/-- The description of the run. -/
def storedDescription : Resource :=
  ⟨⟨"/b", "1:0", Vocab.Name.ntFile, [Vocab.Name.fedoraDescription]⟩, .description, "default"⟩

/-- The content of the run. -/
def storedContent : Resource :=
  ⟨⟨"/b/jcr:content", "1:1", Vocab.Name.ntResource, [Vocab.Name.fedoraBinary]⟩, .binary, "default"⟩

/-- Either half states what the other one holds. -/
theorem halves_share_description_storing :
    Resource.at? storingView.reader "/b" = .ok (some storedDescription) ∧
      OneDescription storingView storedDescription storedContent := by
  have hreader : storingView.reader =
      (Access.direct 0).reader ((Host.mk (.start "root") []).run storing) := by
    rw [storingView, View.ofMap, Host.start]
  have hfound : Resource.at? storingView.reader "/b" = .ok (some storedDescription) := by
    decide +kernel
  exact ⟨hfound, halves_share_description (Repository.isNew_start "root") storing (.direct 0)
    hreader hfound rfl (by decide +kernel) rfl⟩

end Description

end LinkedStore
