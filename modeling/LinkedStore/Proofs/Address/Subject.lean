import LinkedStore.Proofs.Address.RoundTrip
import LinkedStore.Proofs.Host.Absolute
import LinkedStore.Proofs.Host.Reading

/-!
# Subjects and what they name

The subject of a resource is the IRI of the resource that it describes: the two halves of a binary
have one subject, which ends with the path of the description.  Reading that IRI should lead to the
content.  Two classifiers have to agree for that.  The role of a resource follows the types that it
declares, and those of a snapshot are the ones recorded when it was frozen; a mapping of IRIs looks
at the types that a node is stored with, and at a file only as a primary type.

So the subject of a container leads back to it, and that of a binary leads to its content if the
description is stored with the types of one, and to the description otherwise.  The description of a
binary that is no snapshot is stored so, unless it is one by a mixin for files alone.

## Main definitions

* `Node.isTypedDescription` : a node is stored as the description of a binary.
* `IriMap.ReadsHalves` : what the subject of the two halves of a binary leads to.
* `IriMap.ReadsSubject` : what the subject of a resource leads to.

## Main statements

* `IriMap.toInternal_lead` : what an IRI without a segment for metadata names.
* `IriMap.readsSubject_of_run` : what the subject of every resource leads to.
-/

namespace LinkedStore

/-! ### Types -/

/-- Whether a node is stored with the types of the description of a binary. -/
def Node.isTypedDescription (n : Node) : Bool :=
  n.declares Vocab.Name.fedoraDescription || n.primaryType == Vocab.Name.ntFile

namespace ResourceKind

theorem mem_of_ofTypes_eq_description {types : List String} (h : ofTypes types = .description) :
    Vocab.Name.fedoraDescription ∈ types ∨ Vocab.Name.ntFile ∈ types := by
  by_contra hnot
  obtain ⟨hdescription, hfile⟩ := not_or.1 hnot
  simp only [ofTypes, List.contains_eq_mem, hdescription, hfile, decide_false, Bool.or_self,
    Bool.false_eq_true, if_false] at h
  split at h
  · cases h
  · split at h
    · cases h
    · split at h <;> cases h

end ResourceKind

namespace Resource

variable {r : Reader} {x b : Resource}

/-- The description of a binary that is no snapshot is stored as one, unless it is one by a mixin
for files alone. -/
theorem isTypedDescription_of_kind (h : ofNode r x.node = .ok x) (hkind : x.kind = .description)
    (hfrozen : x.node.isFrozen = false) (hmixin : Vocab.Name.ntFile ∉ x.node.mixins) :
    x.node.isTypedDescription = true := by
  obtain ⟨types, htypes, heq⟩ := bind_eq_ok_iff.1 h
  have hkinds : ResourceKind.ofTypes types = x.kind :=
    congrArg Resource.kind (pure_eq_ok_iff.1 heq)
  rw [Node.declaredTypes, hfrozen, if_neg Bool.false_ne_true] at htypes
  obtain rfl := pure_eq_ok_iff.1 htypes
  rw [Node.isTypedDescription, Node.declares]
  rcases ResourceKind.mem_of_ofTypes_eq_description (hkinds.trans hkind) with hmem | hmem
  · rcases List.mem_cons.1 hmem with heq | hmem
    · simp [← heq]
    · simp [hmem]
  · rcases List.mem_cons.1 hmem with heq | hmem
    · simp [← heq]
    · exact absurd hmem hmixin

end Resource

namespace IriMap

variable {m : IriMap} {r : Reader} {path : String} {b : Bool}

/-! ### Ordinary paths -/

/-- A path without a mark of a fragment has no fragment. -/
theorem toExternal_of_notMem (m : IriMap) (r : Reader) (h : '#' ∉ path.toList) :
    m.toExternal r path = m.addressOf r path := by
  have hcut : Text.cutAt holderMark path.toList = none :=
    Text.cutAt_of_notMem (by decide : '#' ∈ holderMark) h
  rw [toExternal, hcut]

/-- A part that ends with no segment for metadata names the path it spells, or the content below
it. -/
theorem addresses_ordinary (hpath : IsOrdinary path) (hnode : isDescription r path = .ok b) :
    Addresses r path.toList (if b then Path.child path Vocab.Name.content else path) := by
  have htail := hpath.before?_metadataTail
  rw [← String.ofList_toList (s := path)] at hnode
  cases b with
  | false => simpa using Addresses.plain htail hnode
  | true => simpa using Addresses.content htail hnode

/-- **What an IRI without a segment for metadata names**: the content below the path, if the path is
that of a description, and else the path. -/
theorem toInternal_lead (m : IriMap) (hpath : IsOrdinary path)
    (hnode : isDescription r path = .ok b) :
    m.toInternal r (m.lead ++ path) =
      .ok (some (if b then Path.child path Vocab.Name.content else path)) :=
  toInternal_eq_some_iff.2 ⟨path.toList, _, none, hpath.isPart, addresses_ordinary hpath hnode,
    by rw [withFragment, String.ofList_toList], rfl⟩

/-- The content below an ordinary path has the IRI that ends with the path. -/
theorem toExternal_content (m : IriMap) (r : Reader) (hpath : IsOrdinary path) (hne : path ≠ "/") :
    m.toExternal r (Path.child path Vocab.Name.content) = .ok (m.lead ++ path) := by
  have hchars : path.toList ≠ ['/'] := fun h => hne (String.toList_injective h)
  have htext := toList_child_content hchars
  rw [String.ofList_toList] at htext
  have hunmarked : '#' ∉ (Path.child path Vocab.Name.content).toList := by
    rw [htext, List.mem_append]
    exact not_or.2 ⟨hpath.unmarked, by decide⟩
  obtain ⟨rest, hrest⟩ := hpath.isPart.slash
  rw [toExternal_of_notMem m r hunmarked, addressOf, htext, contentTail, Text.before?_append,
    hrest]
  simp only
  rw [← hrest, String.ofList_toList]
  rfl

/-- The IRI of an ordinary path leads back to it. -/
theorem exists_toExternal_ordinary (m : IriMap) (hr : r.AnswersNodes) (hpath : IsOrdinary path) :
    ∃ iri, m.toExternal r path = .ok iri ∧ m.toInternal r iri = .ok (some path) := by
  obtain ⟨b, hnode⟩ := exists_isDescription hr path
  have hcontent := before?_contentTail hpath.isPart.addressable
  rw [contentTail] at hcontent
  rw [toExternal_of_notMem m r hpath.unmarked, addressOf, hcontent, hnode]
  cases b with
  | false => exact ⟨_, rfl, toInternal_lead m hpath hnode⟩
  | true =>
      obtain ⟨rest, hrest⟩ := hpath.isPart.slash
      rw [← String.ofList_toList (s := path)] at hnode
      have haddresses := Addresses.description (by simp [hrest]) hnode
      rw [String.ofList_toList] at haddresses
      refine ⟨_, rfl, toInternal_eq_some_iff.2 ⟨_, _, none, hpath.isPart_metadata, haddresses, ?_,
        rfl⟩⟩
      exact String.toList_injective (by simp [withFragment, metadataTail])

/-! ### Subjects -/

/-- What the subject of the two halves of a binary leads to, given the description and the
content. -/
structure ReadsHalves (m : IriMap) (r : Reader) (x content : Resource) : Prop where
  /-- Both halves describe the content, and have the same subject. -/
  subject : ∀ half, half = x ∨ half = content → half.described r = .ok content ∧
    (View.ofMap m r).subject half = .ok (.iri (m.lead ++ x.path))
  /-- It leads to the content, if the description is stored as one, and else to the description. -/
  reads : m.toInternal r (m.lead ++ x.path) =
    .ok (some (if x.node.isTypedDescription then content.path else x.path))
  /-- The description is stored as one if it is no snapshot, and not one by a mixin alone. -/
  typed : x.node.isFrozen = false → Vocab.Name.ntFile ∉ x.node.mixins →
    x.node.isTypedDescription = true

/-- What the subject of a resource leads to. -/
structure ReadsSubject (m : IriMap) (r : Reader) (x : Resource) : Prop where
  /-- That of a container leads back to the container. -/
  container : x.kind = .container → ∃ iri, x.described r = .ok x ∧
    (View.ofMap m r).subject x = .ok (.iri iri) ∧ m.toInternal r iri = .ok (some x.path)
  /-- That of a binary leads to its content, if its description is stored as one. -/
  halves : x.kind = .description → ∀ content : Resource,
    Resource.at? r (Path.child x.path Vocab.Name.content) = .ok (some content) →
      content.kind = .binary → m.ReadsHalves r x content

theorem isDescription_of_node {n : Node} (h : r.node path = .ok (some n)) :
    isDescription r path = .ok n.isTypedDescription := by
  rw [isDescription_eq, h]
  rfl

/-- The subject of a resource is the IRI of what it describes. -/
theorem subject_of_described {x d : Resource} {iri : String} (hd : x.described r = .ok d)
    (hiri : m.toExternal r d.path = .ok iri) : (View.ofMap m r).subject x = .ok (.iri iri) := by
  rw [View.subject, View.ofMap, hd]
  simp only [bind, Except.bind, hiri]
  rfl

/-- The subject of a resource at an ordinary path. -/
theorem readsSubject {w : Workspace} (hreads : r.ReadsFrom w) (hw : w.Filed)
    (hanswers : r.AnswersNodes)
    (hroot : ∀ x, Resource.at? r "/" = .ok (some x) → x.kind ≠ .description) {x : Resource}
    (hx : Resource.at? r x.path = .ok (some x)) (hpath : IsOrdinary x.path) (m : IriMap) :
    m.ReadsSubject r x where
  container hkind := by
    have hdescribed : x.described r = .ok x := by
      rw [Resource.described, if_neg (by simp [hkind])]
      rfl
    obtain ⟨iri, hiri, hback⟩ := exists_toExternal_ordinary m hanswers hpath
    exact ⟨iri, hdescribed, subject_of_described hdescribed hiri, hback⟩
  halves hkind content hcontent hbinary := by
    obtain ⟨n, hnode, hrole⟩ := Resource.at?_eq_some_iff.1 hx
    obtain rfl := Resource.node_of_ofNode hrole
    have hne : x.path ≠ "/" := fun h => hroot x (h ▸ hx) hkind
    have hplace : content.path = Path.child x.path Vocab.Name.content := by
      obtain ⟨c, hc, hrole⟩ := Resource.at?_eq_some_iff.1 hcontent
      obtain rfl := Resource.node_of_ofNode hrole
      exact hw.path (hreads.node hc)
    have hiri : m.toExternal r content.path = .ok (m.lead ++ x.path) := by
      rw [hplace, toExternal_content m r hpath hne]
    constructor
    case subject =>
      rintro half (rfl | rfl)
      · have hdescribed : half.described r = .ok content := by
          rw [Resource.described, if_pos hkind, Resource.require, hcontent]
          rfl
        exact ⟨hdescribed, subject_of_described hdescribed hiri⟩
      · have hdescribed : half.described r = .ok half := by
          rw [Resource.described, if_neg (by simp [hbinary])]
          rfl
        exact ⟨hdescribed, subject_of_described hdescribed hiri⟩
    case reads => rw [toInternal_lead m hpath (isDescription_of_node hnode), hplace]
    case typed => exact Resource.isTypedDescription_of_kind hrole hkind

/-- **What the subject of a resource leads to**, in every state of a host, through every way to a
session that answers, and with every mapping of IRIs. -/
theorem readsSubject_of_run {repository : Repository} (hnew : repository.IsNew)
    (calls : List Host.Call) (a : Access)
    (hreader : r = a.reader ((Host.mk repository []).run calls)) (hanswers : r.AnswersNodes)
    (hroot : ∀ x, Resource.at? r "/" = .ok (some x) → x.kind ≠ .description) {x : Resource}
    (hx : Resource.at? r path = .ok (some x)) (hunmarked : '#' ∉ path.toList)
    (hsegments : ∀ s ∈ Path.segments path,
      Path.beginsWith "jcr:" s = false ∧ s ≠ metadataSegment) (m : IriMap) :
    x.path = path ∧ m.ReadsSubject r x := by
  have hreads : r.ReadsFrom _ := hreader ▸ a.readsFrom _
  have hfiled := Host.filed_current hnew calls a.number
  obtain ⟨n, hnode, hrole⟩ := Resource.at?_eq_some_iff.1 hx
  obtain rfl := Resource.node_of_ofNode hrole
  obtain rfl : x.path = path := hfiled.path (hreads.node hnode)
  have habsolute := Host.absolute_current hnew calls a.number _ _ (hreads.node hnode)
  exact ⟨rfl, readsSubject hreads hfiled hanswers hroot hx
    ⟨Path.isWithin_root_iff.1 habsolute, hunmarked, hsegments⟩ m⟩

/-- A run that makes a snapshot of a binary. -/
def archiving : List Host.Call :=
  let d (number : Nat) : Draws := ⟨fun j => toString number ++ ":" ++ toString j, .epoch⟩
  [.opening "default", .mutate 0 (d 1) (.createBinary "/b" [] "text/plain"),
    .mutate 0 (d 2) (.addMixin "/b" Vocab.Name.mixVersionable),
    .mutate 0 (d 3) (.checkin "/b" [] none)]

/-- The session of the run. -/
def archiveReader : Reader := (Access.direct 0).reader ((Host.mk (.start "root") []).run archiving)

/-- The root of the repository. -/
def archiveRoot : Resource :=
  ⟨⟨"/", "root", Vocab.Name.modeRoot, [Vocab.Name.fedoraContainer]⟩, .container, "default"⟩

/-- The snapshot of the description, and that of the content. -/
def archived : Resource :=
  ⟨.plain "/b/fcr:versions/1.0" "3:1" Vocab.Name.ntFrozenNode, .description, "default"⟩

def archivedContent : Resource :=
  ⟨.plain "/b/fcr:versions/1.0/jcr:content" "3:2" Vocab.Name.ntFrozenNode, .binary, "default"⟩

/-- What the session answers: both snapshots are resources in their roles, and the subject of the
description leads to the description. -/
theorem archiveReader_answers :
    Resource.at? archiveReader "/" = .ok (some archiveRoot) ∧
      Resource.at? archiveReader "/b/fcr:versions/1.0" = .ok (some archived) ∧
      Resource.at? archiveReader "/b/fcr:versions/1.0/jcr:content" = .ok (some archivedContent) ∧
      (View.ofMap ⟨"http://localhost/rest"⟩ archiveReader).subject archived =
        .ok (.iri "http://localhost/rest/b/fcr:versions/1.0") ∧
      toInternal ⟨"http://localhost/rest"⟩ archiveReader
        "http://localhost/rest/b/fcr:versions/1.0" = .ok (some "/b/fcr:versions/1.0") := by
  decide +kernel

theorem answersNodes_archiveReader : archiveReader.AnswersNodes :=
  Session.answersNodes_reader _ (by decide +kernel)

/-- The root of the repository is a container. -/
theorem kind_ne_of_archiveReader (x : Resource)
    (hx : Resource.at? archiveReader "/" = .ok (some x)) : x.kind ≠ .description := by
  obtain ⟨hroot, -⟩ := archiveReader_answers
  obtain rfl := Option.some.inj (Except.ok.inj (hroot.symm.trans hx))
  decide

/-- The subject of the snapshot leads to its description. -/
theorem readsSubject_of_run_archiving :
    let m : IriMap := ⟨"http://localhost/rest"⟩
    Resource.at? archiveReader "/b/fcr:versions/1.0" = .ok (some archived) ∧
      m.ReadsSubject archiveReader archived ∧
      m.toInternal archiveReader "http://localhost/rest/b/fcr:versions/1.0" =
        .ok (some "/b/fcr:versions/1.0") := by
  intro m
  obtain ⟨-, hfound, -, -, hinternal⟩ := archiveReader_answers
  have hsubject := readsSubject_of_run (Repository.isNew_start "root") archiving (.direct 0) rfl
    answersNodes_archiveReader kind_ne_of_archiveReader hfound (by decide) (by decide) m
  exact ⟨hfound, hsubject.2, hinternal⟩

/-- So it is not true of every binary that its subject leads to its content. -/
theorem not_reads_content_of_frozen :
    ¬∀ (calls : List Host.Call) (r : Reader) (m : IriMap) (x content : Resource) (iri : String),
      r = (Access.direct 0).reader ((Host.mk (.start "root") []).run calls) → r.AnswersNodes →
      (∀ x, Resource.at? r "/" = .ok (some x) → x.kind ≠ .description) →
      Resource.at? r x.path = .ok (some x) → x.kind = .description →
      Resource.at? r (Path.child x.path Vocab.Name.content) = .ok (some content) →
      content.kind = .binary → '#' ∉ x.path.toList →
      (∀ s ∈ Path.segments x.path, Path.beginsWith "jcr:" s = false ∧ s ≠ metadataSegment) →
      (View.ofMap m r).subject x = .ok (.iri iri) →
      m.toInternal r iri = .ok (some content.path) := by
  intro hall
  obtain ⟨-, hfound, hcontent, hsubject, hinternal⟩ := archiveReader_answers
  have hreads := hall archiving archiveReader ⟨"http://localhost/rest"⟩ archived archivedContent _
    rfl answersNodes_archiveReader kind_ne_of_archiveReader hfound rfl hcontent rfl (by decide)
    (by decide) hsubject
  rw [hinternal] at hreads
  exact absurd hreads (by decide)

end IriMap

end LinkedStore
