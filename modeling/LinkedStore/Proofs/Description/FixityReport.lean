import LinkedStore.Description.FixityReport
import LinkedStore.Proofs.Address.RoundTrip
import LinkedStore.Proofs.Description.Halves
import LinkedStore.Proofs.Host.Binary
import LinkedStore.Proofs.Host.Resemblance
import LinkedStore.Proofs.Stream.Items

/-!
# Fixity reports are truthful

What is recorded of the bytes of a binary when it is created is a digest and a number.  A report
computes both again from the bytes that are stored now, by the algorithm that the recorded digest
names, and compares them twice, the second time in place of the first.  So it says of the stored
bytes what is so, whatever algorithm has been asked for, and whichever half is reported on.

## Main definitions

* `Reader.AnswersFixity` : a reader answers from a state, also about stored bytes.
* `FixityState.Describes` : what an outcome says of recorded and of stored bytes.
* `Description.Truthful` : what a report says of recorded and of stored bytes.
* `Description.ReportsFixity` : both halves of a binary have one truthful report.

## Main statements

* `FixityResult.mem_states_verify` : the outcomes of a comparison.
* `DigestAlgorithm.ofDigestIri?_digestIri` : a digest names its algorithm.
* `Description.reportsFixity_of_holdsBinary` : the report on a binary that is held.
* `Description.reportsFixity_of_createBinary` : the report on a binary that has been created.
-/

namespace LinkedStore

/-! ### Digests and outcomes -/

namespace DigestAlgorithm

/-- The IRI of a digest names the algorithm that it was computed by. -/
theorem ofDigestIri?_digestIri (algorithm : DigestAlgorithm) (bytes : Text.Bytes) :
    ofDigestIri? (algorithm.digestIri bytes) = some algorithm := by
  have hscheme : Text.pieces ':' algorithm.scheme.toList = [algorithm.scheme.toList] := by
    cases algorithm <;> decide
  have htext : (algorithm.digestIri bytes).toList =
      "urn".toList ++ ':' :: (algorithm.scheme.toList ++ ':' :: (algorithm.hex bytes).toList) := by
    simp [digestIri]
  rw [ofDigestIri?, htext, Text.pieces_append, Text.pieces_append, hscheme,
    Text.pieces_of_notMem (by decide)]
  cases algorithm <;> rfl

/-- Bytes have equal digests just if the IRIs of the digests are equal. -/
theorem digestIri_inj {algorithm : DigestAlgorithm} {bytes bytes' : Text.Bytes} :
    algorithm.digestIri bytes = algorithm.digestIri bytes' ↔
      algorithm.hex bytes = algorithm.hex bytes' := by
  rw [digestIri, digestIri, String.append_right_inj]

end DigestAlgorithm

namespace FixityResult

/-- What an outcome says when a result is compared with a digest and a size. -/
def Deserves (r : FixityResult) (digest : String) (size : Nat) : FixityState → Prop
  | .success => r.digest = digest ∧ r.size = size
  | .badChecksum => r.digest ≠ digest
  | .badSize => r.size ≠ size

/-- The outcomes of a comparison are those that say what is so. -/
theorem mem_states_verify {r : FixityResult} {digest : String} {size : Nat} {state : FixityState} :
    state ∈ (r.verify digest size).states ↔ r.Deserves digest size state := by
  by_cases hdigest : r.digest = digest <;> by_cases hsize : r.size = size <;>
    cases state <;> simp [verify, Deserves, hdigest, hsize]

/-- A second comparison takes the place of the first. -/
theorem verify_verify (r : FixityResult) (digest digest' : String) (size size' : Nat) :
    (r.verify digest size).verify digest' size' = r.verify digest' size' := rfl

end FixityResult

/-- What an outcome says of the bytes that were recorded and the bytes that are stored. -/
def FixityState.Describes (recorded stored : Text.Bytes) : FixityState → Prop
  | .success => Digest.sha1 stored = Digest.sha1 recorded ∧ stored.length = recorded.length
  | .badChecksum => Digest.sha1 stored ≠ Digest.sha1 recorded
  | .badSize => stored.length ≠ recorded.length

/-! ### Readers that answer about stored bytes -/

/-- The reader answers from the state, and it refuses nothing that it is asked about the bytes that
the state stores. -/
structure Reader.AnswersFixity (a : Reader) (w : Workspace) : Prop extends a.Answers w where
  fixity : ∀ path bytes algorithm, w.content? path = some bytes → a.fixity path algorithm =
    .ok [.computed ("memory://" ++ a.workspace ++ path) (algorithm.digestIri bytes) bytes.length]

/-- A session that is reached without a fault plan, directly or in the scope of a transaction. -/
def Access.IsFaultless : Access → Prop
  | .direct _ => True
  | .within _ inner => inner.IsFaultless
  | .faulty _ _ => False

/-- An open session that is reached without a fault plan answers about stored bytes. -/
theorem Access.answersFixity {h : Host} {a : Access} (ha : a.IsFaultless)
    (hlive : (h.session a.number).live = true) :
    (a.reader h).AnswersFixity (h.current a.number) := by
  induction a with
  | direct number =>
      refine ⟨Session.answers_reader h.repository hlive, fun path bytes algorithm hbytes => ?_⟩
      have hanswer {α : Type} (value : α) : (h.session number).answer value = .ok value :=
        if_pos hlive
      have hcontent : ((h.session number).current (h.repository.committed
          (h.session number).workspace)).content? path = some bytes := hbytes
      simp only [Access.reader, Session.reader, hanswer, hcontent]
      rfl
  | within id inner ih =>
      have hinner := ih ha hlive
      exact ⟨⟨hinner.node, hinner.nodeByIdentifier, hinner.property, hinner.nodeType⟩,
        hinner.fixity⟩
  | faulty plan inner ih => exact ha.elim

namespace Workspace.HoldsBinary

variable {a : Reader} {w : Workspace} {path : String} {recorded stored : Text.Bytes}

/-- A node without types that were recorded by a freeze declares its own types. -/
theorem ofNode_of_unrecorded (ha : a.Answers w) {n : Node}
    (hunrecorded : ∀ name ∈ recordedNames, w.property? n.path name = none) :
    Resource.ofNode a n = .ok ⟨n, .ofTypes n.types, a.workspace⟩ := by
  have hrecorded {name : String} (hname : name ∈ recordedNames) :
      n.recordedTypes a name = .ok [] := by
    rw [Node.recordedTypes, ha.property, hunrecorded name hname]
    rfl
  have hdeclared : n.declaredTypes a = .ok n.types := by
    rw [Node.declaredTypes]
    split
    · rw [hrecorded (by decide), hrecorded (by decide)]
      rfl
    · rfl
  rw [Resource.ofNode, hdeclared]
  rfl

/-- A reader finds the two halves of a binary that is held. -/
theorem exists_halves (h : w.HoldsBinary path recorded stored) (hw : w.Filed)
    (ha : a.Answers w) (hreads : a.ReadsFrom w) :
    ∃ x content : Resource, x.Halves a content ∧ x.path = path ∧
      content.path = Path.child path Vocab.Name.content := by
  obtain ⟨identifier, hdescription⟩ := h.description
  obtain ⟨identifier', hcontent⟩ := h.content
  have hx := Resource.at?_eq_some_iff.2 ⟨_, (ha.node path).trans (congrArg _ hdescription),
    ofNode_of_unrecorded ha (h.unrecorded _ List.mem_cons_self)⟩
  have hbelow := Resource.at?_eq_some_iff.2 ⟨_, (ha.node _).trans (congrArg _ hcontent),
    ofNode_of_unrecorded ha (h.unrecorded _ (List.mem_cons_of_mem _ List.mem_cons_self))⟩
  have hdescriptionKind : ResourceKind.ofTypes
      [Vocab.Name.ntFile, Vocab.Name.fedoraDescription] = .description := by decide
  have hbinaryKind : ResourceKind.ofTypes
      [Vocab.Name.ntResource, Vocab.Name.fedoraBinary] = .binary := by decide
  exact ⟨_, _, Resource.halves_of_at? hreads hw hx hdescriptionKind hbelow hbinaryKind, rfl, rfl⟩

variable {content : Resource}

theorem contentDigest_eq (h : w.HoldsBinary path recorded stored) (ha : a.Answers w)
    (hcontent : content.path = Path.child path Vocab.Name.content) :
    content.contentDigest a = .ok (some (DigestAlgorithm.sha1.digestIri recorded)) := by
  rw [Resource.contentDigest, Resource.textProperty, Resource.property, hcontent, ha.property,
    h.digest]
  rfl

theorem contentSize_eq (h : w.HoldsBinary path recorded stored) (ha : a.Answers w)
    (hcontent : content.path = Path.child path Vocab.Name.content) :
    content.contentSize a = .ok (some recorded.length) := by
  rw [Resource.contentSize, Resource.property, hcontent, ha.property, h.size]
  change Except.ok (if 0 ≤ (recorded.length : Int) then some (recorded.length : Int).toNat
    else none) = _
  rw [if_pos (Int.natCast_nonneg _), Int.toNat_natCast]

/-- The stored bytes are compared with what was recorded, by the digest that was recorded. -/
theorem fixity_eq (h : w.HoldsBinary path recorded stored) (ha : a.AnswersFixity w)
    (hbinary : content.kind = .binary)
    (hcontent : content.path = Path.child path Vocab.Name.content) (algorithm : DigestAlgorithm) :
    content.fixity a algorithm = .ok
      [(FixityResult.computed ("memory://" ++ a.workspace ++ content.path)
        (DigestAlgorithm.sha1.digestIri stored) stored.length).verify
          (DigestAlgorithm.sha1.digestIri recorded) recorded.length] := by
  have hdescribed : content.described a = .ok content := by
    rw [Resource.described, if_neg (by simp [hbinary])]
    rfl
  have hbytes : w.content? content.path = some stored := by
    rw [Workspace.content?, hcontent, h.data]
    rfl
  rw [Resource.fixity, hdescribed]
  simp only [bind, Except.bind, hbinary, ne_eq, not_true_eq_false, if_false, pure, Except.pure,
    h.contentDigest_eq ha.toAnswers hcontent, h.contentSize_eq ha.toAnswers hcontent,
    DigestAlgorithm.ofDigestIri?_digestIri, Option.getD_some, ha.fixity _ _ _ hbytes,
    List.map_cons, List.map_nil]

end Workspace.HoldsBinary

namespace Description

open Vocab

variable {topic node : Term} {recorded stored : Text.Bytes} {triples : List Triple}

/-! ### What a report says -/

/-- A report on the one copy of a binary is truthful: it has one node, and the node states the
digest and the number of the stored bytes, and every outcome that says what is so, and no
other. -/
structure Truthful (topic node : Term) (recorded stored : Text.Bytes) (triples : List Triple) :
    Prop where
  type_iff : ∀ s, ⟨s, .iri Rdf.type, .iri Premis.fixity⟩ ∈ triples ↔ s = node
  hasFixity_iff : ∀ s o, ⟨s, .iri Premis.hasFixity, o⟩ ∈ triples ↔ s = topic ∧ o = node
  digest_iff : ∀ s o, ⟨s, .iri Premis.hasMessageDigest, o⟩ ∈ triples ↔
    s = node ∧ o = .iri ("urn:sha1:" ++ Digest.sha1 stored)
  /-- The size is a literal that spells the number of the stored bytes. -/
  size_iff : ∃ datatype value, value.lexical = toString stored.length ∧
    ∀ s o, ⟨s, .iri Premis.hasSize, o⟩ ∈ triples ↔ s = node ∧ o = .literal datatype none value
  status_iff : ∀ s o, ⟨s, .iri Fedora.status, o⟩ ∈ triples ↔
    s = node ∧ ∃ state : FixityState, o = .string state.word ∧ state.Describes recorded stored

theorem exists_sizeLiteral (size : Nat) : ∃ datatype value,
    value.lexical = toString size ∧ sizeLiteral size = .literal datatype none value := by
  rw [sizeLiteral]
  split
  · exact ⟨Xsd.long, .integer size, rfl, rfl⟩
  · exact ⟨Xsd.integer, .string (toString size), rfl, rfl⟩

/-- What a result deserves by the recorded digest and size describes the bytes. -/
theorem deserves_computed_iff (location : String) (recorded stored : Text.Bytes)
    (state : FixityState) :
    (FixityResult.computed location (DigestAlgorithm.sha1.digestIri stored) stored.length).Deserves
        (DigestAlgorithm.sha1.digestIri recorded) recorded.length state ↔
      state.Describes recorded stored := by
  have hdigest : DigestAlgorithm.sha1.digestIri stored = DigestAlgorithm.sha1.digestIri recorded ↔
      Digest.sha1 stored = Digest.sha1 recorded := DigestAlgorithm.digestIri_inj
  cases state with
  | success => exact and_congr_left' hdigest
  | badChecksum => exact not_congr hdigest
  | badSize => exact Iff.rfl

theorem truthful_fixityTriples (topic node : Term) (location : String)
    (recorded stored : Text.Bytes) :
    Truthful topic node recorded stored (fixityTriples topic node
      ((FixityResult.computed location (DigestAlgorithm.sha1.digestIri stored)
        stored.length).verify (DigestAlgorithm.sha1.digestIri recorded) recorded.length)) where
  type_iff s := by simp +decide [fixityTriples]
  hasFixity_iff s o := by simp +decide [fixityTriples]
  digest_iff s o := by
    have hscheme : "urn:" ++ "sha1" ++ ":" = "urn:sha1:" := by decide
    have hdigest : DigestAlgorithm.sha1.digestIri stored = "urn:sha1:" ++ Digest.sha1 stored :=
      congrArg (· ++ Digest.sha1 stored) hscheme
    rw [← hdigest]
    simp +decide [fixityTriples, FixityResult.verify, FixityResult.computed]
  size_iff := by
    obtain ⟨datatype, value, hlexical, hsize⟩ := exists_sizeLiteral stored.length
    refine ⟨datatype, value, hlexical, fun s o => ?_⟩
    rw [← hsize]
    simp +decide [fixityTriples, FixityResult.verify, FixityResult.computed]
  status_iff s o := by
    have hstates (state : FixityState) := FixityResult.mem_states_verify.trans
      (deserves_computed_iff location recorded stored state)
    simp only [← hstates]
    simp +decide [fixityTriples]
    constructor
    · rintro ⟨state, hstate, rfl, rfl⟩
      exact ⟨rfl, state, rfl, hstate⟩
    · rintro ⟨rfl, state, rfl, hstate⟩
      exact ⟨state, hstate, rfl, rfl⟩

/-! ### The report on a binary -/

/-- Where nodes can be looked up, every path has an IRI. -/
theorem exists_iri (m : IriMap) {a : Reader} (ha : a.AnswersNodes) (path : String) :
    ∃ iri, m.toExternal a path = .ok iri := by
  have haddress (path : String) : ∃ iri, m.addressOf a path = .ok iri := by
    rw [IriMap.addressOf]
    split
    · exact ⟨_, rfl⟩
    · obtain ⟨b, hnode⟩ := IriMap.exists_isDescription ha path
      rw [hnode]
      cases b <;> exact ⟨_, rfl⟩
  rw [IriMap.toExternal]
  split
  · simp only
    obtain ⟨iri, hiri⟩ := haddress _
    rw [hiri]
    exact ⟨_, rfl⟩
  · exact haddress path

/-- Both halves of a binary are found, and at any time they have one report, which is the same
whatever algorithm is asked for, and truthful. -/
structure ReportsFixity (v : View) (path : String) (x content : Resource)
    (recorded stored : Text.Bytes) : Prop where
  halves : x.Halves v.reader content
  path_eq : x.path = path
  report : ∀ now, ∃ stream triples topic node,
    (∀ half ∈ [x, content], ∀ algorithm, fixity v now half algorithm = .ok stream) ∧
      stream.collect v = .ok triples ∧ v.subject x = .ok topic ∧
      Truthful topic node recorded stored triples

/-- The halves of a binary that is held have one truthful report. -/
theorem reportsFixity_of_holdsBinary {a : Reader} {w : Workspace} {path : String}
    (h : w.HoldsBinary path recorded stored) (hw : w.Filed) (ha : a.AnswersFixity w)
    (hreads : a.ReadsFrom w) (m : IriMap) :
    ∃ x content, ReportsFixity (View.ofMap m a) path x content recorded stored := by
  obtain ⟨x, content, hhalves, hpath, hcontent⟩ := h.exists_halves hw ha.toAnswers hreads
  refine ⟨x, content, hhalves, hpath, fun now => ?_⟩
  obtain ⟨iri, hiri⟩ := exists_iri m (fun path => ⟨_, ha.node path⟩) content.path
  have hsubject : (View.ofMap m a).subject content = .ok (.iri iri) := by
    rw [View.subject, View.ofMap, hhalves.described_content]
    change Term.iri <$> m.toExternal a content.path = _
    rw [hiri]
    rfl
  have hreport {half : Resource} (hdescribed : half.described a = .ok content)
      (algorithm : DigestAlgorithm) : fixity (View.ofMap m a) now half algorithm =
        .ok (.ofTriples (.iri iri) (fixityTriples (.iri iri) (fixityNode iri now 0)
          ((FixityResult.computed ("memory://" ++ a.workspace ++ content.path)
            (DigestAlgorithm.sha1.digestIri stored) stored.length).verify
              (DigestAlgorithm.sha1.digestIri recorded) recorded.length))) := by
    have hreader : (View.ofMap m a).reader = a := rfl
    rw [fixity, hreader, hdescribed]
    simp only [bind, Except.bind, h.fixity_eq ha hhalves.binary hcontent,
      h.contentDigest_eq ha.toAnswers hcontent, h.contentSize_eq ha.toAnswers hcontent,
      Option.getD_some, fixityReport, hsubject, Term.iri?, List.zipIdx_cons, List.zipIdx_nil,
      List.flatMap_cons, List.flatMap_nil, List.append_nil, FixityResult.verify_verify]
    rfl
  -- The algorithm that is asked for does not occur in the report, since the recorded digest names
  -- its own.
  refine ⟨_, _, .iri iri, fixityNode iri now 0, fun half hhalf algorithm => hreport ?_ algorithm,
    Stream.collect_ofTriples _ _, hhalves.subject_eq.trans hsubject,
    truthful_fixityTriples _ _ _ _ _⟩
  simp only [List.mem_cons, List.not_mem_nil, or_false] at hhalf
  obtain rfl | rfl := hhalf
  · exact hhalves.described_description
  · exact hhalves.described_content

/-! ### The report on a binary that has been created -/

variable {r : Repository} {h' : Host} {a : Access} {d : Draws} {path mimeType : String}
  {outcome : Mutation.Outcome}

/-- In a state of a host the halves of a binary that an open session holds have one truthful
report. -/
theorem reportsFixity_of_live (hr : r.IsNew) (calls : List Host.Call) (ha : a.IsFaultless)
    (hlive : (((Host.mk r []).run calls).session a.number).live = true)
    (hheld : (((Host.mk r []).run calls).current a.number).HoldsBinary path recorded stored)
    (m : IriMap) :
    ∃ x content, ReportsFixity (View.ofMap m (a.reader ((Host.mk r []).run calls))) path x content
      recorded stored :=
  reportsFixity_of_holdsBinary hheld (Host.filed_current hr calls a.number)
    (Access.answersFixity ha hlive) (a.readsFrom _) m

/-- **Fixity reports are truthful.**  When a binary has been created in a session, the report on
either half finds the bytes as they were recorded; other bytes can then be stored in their place,
and the report on either half says in what they differ. -/
theorem reportsFixity_of_createBinary (hr : r.IsNew) (calls : List Host.Call)
    (ha : a.IsFaultless)
    (hrun : (a.mutate d (.createBinary path recorded mimeType)).run ((Host.mk r []).run calls) =
      .ok outcome h') (m : IriMap) :
    (∃ x content, ReportsFixity (View.ofMap m (a.reader h')) path x content recorded recorded) ∧
      ∀ (d' : Draws) (stored : Text.Bytes), ∃ h'',
        (a.mutate d' (Host.replacement path stored)).run h' = .ok .done h'' ∧
          ∃ x content,
            ReportsFixity (View.ofMap m (a.reader h'')) path x content recorded stored := by
  -- A call after a run is the end of a longer run, so that both states are states of a host.
  have hrunAfter (calls : List Host.Call) (c : Host.Call) :
      ((Host.mk r []).run calls).after c = (Host.mk r []).run (calls ++ [c]) :=
    (Host.run_concat ..).symm
  obtain ⟨rfl, -⟩ := Host.session_run_of_mutate hrun
  obtain ⟨hlive, hheld⟩ := Host.holdsBinary_of_mutate hr hrun
  rw [hrunAfter] at hlive hheld ⊢
  refine ⟨reportsFixity_of_live hr _ ha hlive hheld m, fun d' stored => ?_⟩
  obtain ⟨hreplaced, hlive', hheld'⟩ := Host.mutate_replacement hlive hheld d' stored
  refine ⟨_, hreplaced, ?_⟩
  rw [hrunAfter] at hlive' hheld' ⊢
  exact reportsFixity_of_live hr _ ha hlive' hheld' m

/-- A binary of two bytes can be created, in the scope of a transaction as well, and is reported
on. -/
theorem reportsFixity_of_createBinary_scoped :
    let h := (Host.start "root").run [.opening "default"]
    let a : Access := .within "tx" (.direct 0)
    ∃ outcome h', (a.mutate ⟨toString, .epoch⟩ (.createBinary "/b" [104, 105] "text/plain")).run h =
        .ok outcome h' ∧
      (h'.current 0).nodes.keys = ["/", "/b", "/b/jcr:content"] ∧
      (∃ x content, ReportsFixity (View.ofMap ⟨"http://localhost"⟩ (a.reader h')) "/b" x content
        [104, 105] [104, 105]) ∧
      ∀ (d' : Draws) (stored : Text.Bytes), ∃ h'',
        (a.mutate d' (Host.replacement "/b" stored)).run h' = .ok .done h'' ∧
          ∃ x content, ReportsFixity (View.ofMap ⟨"http://localhost"⟩ (a.reader h'')) "/b" x content
            [104, 105] stored := by
  intro h a
  have hruns : (match (a.mutate ⟨toString, .epoch⟩
        (.createBinary "/b" [104, 105] "text/plain")).run h with
      | .ok _ h' => some (h'.current 0).nodes.keys
      | .error _ _ => none) = some ["/", "/b", "/b/jcr:content"] := by decide +kernel
  split at hruns
  case h_1 outcome h' hrun =>
    exact ⟨outcome, h', hrun, Option.some.inj hruns,
      reportsFixity_of_createBinary (Repository.isNew_start "root") [.opening "default"]
        (show a.IsFaultless from trivial) hrun ⟨"http://localhost"⟩⟩
  case h_2 => exact nomatch hruns

end Description

end LinkedStore
