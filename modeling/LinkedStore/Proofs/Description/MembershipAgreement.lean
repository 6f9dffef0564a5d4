import LinkedStore.Proofs.Description.Membership

/-!
# Membership in both directions

Membership is stated from the membership resource, which looks for the containers that name it and
goes down to their children, and from a child, which goes up to its container.  What a container
states of a child in one direction, the child states in the other.

## Main definitions

* `Description.Relates` : a container asserts membership on a resource, with a relation for each
  direction.
* `Description.MembershipAgrees` : the two directions state the same.

## Main statements

* `Description.container_of_mem_children` : the way up from a child leads to its container.
* `Description.mem_isMemberOf_iff` : what a child states on its own side.
* `Description.membership_agrees` : the two directions state the same, in every state of a host.
-/

namespace LinkedStore.Description

open Vocab.Name

variable {v : View} {w : Workspace} {x c m : Resource} {topic : Term} {t : Triple}

/-! ### The way up -/

/-- The container of a child is the one that it is a child of. -/
theorem container_of_mem_children (ha : v.reader.ReadsFrom w)
    (hfound : Resource.at? v.reader c.path = .ok (some c))
    (hpairtree : c.declares v.reader fedoraPairtree = .ok false)
    (hname : c.node.isInternalChild = false) {listing : List (Except Error Resource)}
    (hlisting : c.children v.reader = .ok listing) (hm : .ok m ∈ listing)
    (hkind : m.kind ≠ .binary) : m.container v.reader = .ok (some c) := by
  obtain ⟨nodes, hnodes, rfl⟩ := map_eq_ok_iff.1 hlisting
  obtain ⟨n, hn, hrole⟩ := ok_mem_eachOfNode_iff.1 hm
  obtain rfl := Resource.node_of_ofNode hrole
  have hparent : Path.parent? m.path = some c.path := by
    rw [Resource.childNodes] at hnodes
    split at hnodes
    · obtain rfl := Except.ok.inj hnodes
      cases hn
    · obtain ⟨all, hall, rfl⟩ := map_eq_ok_iff.1 hnodes
      have hchild := ha.children hall (List.mem_filter.1 hn).1
      exact (Workspace.mem_children_iff.1 hchild).2
  have hdescription : m.description v.reader = .ok m := by
    rw [Resource.description, if_neg hkind]
    rfl
  obtain ⟨n, hn, hc⟩ := Resource.at?_eq_some_iff.1 hfound
  obtain rfl := Resource.node_of_ofNode hc
  have haddressable : Resource.addressable? v.reader c.path = .ok (some c) := by
    rw [Resource.addressable?, hn]
    simp [bind, Except.bind, hname, hc, hpairtree, pure, Except.pure]
  rw [Resource.container, hdescription]
  change Resource.firstAddressable v.reader (Path.ancestors m.path) = _
  rw [Path.ancestors_eq, hparent, Resource.firstAddressable, haddressable]
  rfl

theorem memberPartOf_memberSubject (v : View) :
    memberPartOf v Vocab.Ldp.memberSubject = .ok (some .subject) := by
  rw [memberPartOf, if_pos rfl]
  rfl

/-- The part of its members that a container states is the one that is asked for on the way up. -/
theorem memberPart_eq (k : ContainerVariant) :
    memberPart v c k = insertedRelation v c k >>= fun inserted? =>
      inserted?.elim (pure none) (memberPartOf v) := by
  cases k with
  | indirect =>
      rw [memberPart, insertedRelation]
      refine congrArg (_ >>= ·) (funext fun inserted? => ?_)
      cases inserted? <;> rfl
  | basic => exact (memberPartOf_memberSubject v).symm
  | direct => exact (memberPartOf_memberSubject v).symm

/-- A container states its children themselves unless it is indirect and names a property. -/
theorem memberPart_eq_subject {k : ContainerVariant} (hk : c.variant v.reader = .ok (some k))
    (hchild : c.variant v.reader = .ok (some .direct) ∨
      c.textProperty v.reader ldpInsertedContentRelation = .ok (some Vocab.Ldp.memberSubject)) :
    memberPart v c k = .ok (some .subject) := by
  rcases hchild with hdirect | hinserted
  · obtain rfl := Option.some.inj (Except.ok.inj (hk.symm.trans hdirect))
    rfl
  · cases k with
    | indirect =>
        rw [memberPart_eq, insertedRelation, hinserted]
        exact memberPartOf_memberSubject v
    | _ => rfl

/-- The terms that a member states on its own side are those that stand for it, as far as they name
something in the repository. -/
theorem mem_ownTerms_iff {inserted iri : String} {terms : List Term}
    (htopic : v.subject m = .ok topic) (hdomain : v.inDomain iri = true)
    (h : ownTerms v m topic inserted = .ok terms) :
    .iri iri ∈ terms ↔ ∃ part stated, memberPartOf v inserted = .ok (some part) ∧
      memberTerms v m part = .ok stated ∧ .iri iri ∈ stated := by
  rw [ownTerms, bind_eq_ok_iff] at h
  obtain ⟨part?, hpart, h⟩ := h
  cases part? with
  | none =>
      obtain rfl := Except.ok.inj h
      simp [hpart]
  | some part =>
      have hparts : (∃ part' stated, memberPartOf v inserted = .ok (some part') ∧
          memberTerms v m part' = .ok stated ∧ .iri iri ∈ stated) ↔
            ∃ stated, memberTerms v m part = .ok stated ∧ .iri iri ∈ stated := by
        simp [hpart]
      rw [hparts]
      cases part with
      | subject =>
          obtain rfl := Except.ok.inj h
          have hterms : memberTerms v m .subject = .ok [topic] :=
            memberTerms_subject_eq_ok_iff.2 ⟨topic, htopic, rfl⟩
          simp [hterms]
      | valuesOf name =>
          obtain ⟨stated, hstated, h⟩ := bind_eq_ok_iff.1 h
          obtain rfl := Except.ok.inj h
          have hown : isOwnIri v (.iri iri) = true := hdomain
          simp [hstated, hown]

theorem inverseRelation_eq {k : ContainerVariant} {inverse : String}
    (hcontainer : m.container v.reader = .ok (some c)) (hk : c.variant v.reader = .ok (some k))
    (hdirect : k ≠ .basic)
    (hinverse : c.textProperty v.reader ldpIsMemberOfRelation = .ok (some inverse))
    (hresource : membershipResource v c = .ok (some topic)) :
    inverseRelation v m =
      (insertedRelation v c k).map fun inserted? => inserted?.map (⟨inverse, topic, ·⟩) := by
  have hinverseOf : inverseRelation v m = inverseOf v c k := by
    rw [inverseRelation, hcontainer]
    cases k with
    | basic => exact absurd rfl hdirect
    | direct => simp [bind, Except.bind, hk]
    | indirect => simp [bind, Except.bind, hk]
  rw [hinverseOf, inverseOf, hinverse]
  simp only [bind, Except.bind, hresource]
  cases insertedRelation v c k with
  | error e => rfl
  | ok inserted? => cases inserted? <;> rfl

/-- A resource whose container says nothing about the other direction states nothing. -/
theorem eq_nil_of_inverseRelation {s : Stream View} {triples : List Triple}
    (hsilent : inverseRelation v m = .ok none) (hs : isMemberOf v m = .ok s)
    (h : s.collect v = .ok triples) : triples = [] := by
  obtain ⟨own, -, hs⟩ := bind_eq_ok_iff.1 hs
  rw [hsilent] at hs
  obtain rfl := Except.ok.inj hs
  exact (Except.ok.inj ((Stream.collect_ofTriples _ _).symm.trans h)).symm

/-- What a member states on its own side. -/
theorem mem_isMemberOf_iff {k : ContainerVariant} {inverse iri : String} {s : Stream View}
    {triples : List Triple} (hcontainer : m.container v.reader = .ok (some c))
    (hk : c.variant v.reader = .ok (some k)) (hdirect : k ≠ .basic)
    (hinverse : c.textProperty v.reader ldpIsMemberOfRelation = .ok (some inverse))
    (hresource : membershipResource v c = .ok (some topic)) (hdomain : v.inDomain iri = true)
    (hs : isMemberOf v m = .ok s) (h : s.collect v = .ok triples) :
    ⟨.iri iri, .iri inverse, topic⟩ ∈ triples ↔ ∃ part terms,
      memberPart v c k = .ok (some part) ∧ memberTerms v m part = .ok terms ∧ .iri iri ∈ terms := by
  obtain ⟨own, hown, hs⟩ := bind_eq_ok_iff.1 hs
  rw [inverseRelation_eq hcontainer hk hdirect hinverse hresource, bind_eq_ok_iff] at hs
  obtain ⟨inverse?, hmapped, hs⟩ := hs
  obtain ⟨inserted?, hinserted, rfl⟩ := map_eq_ok_iff.1 hmapped
  rw [memberPart_eq, hinserted]
  cases inserted? with
  | none =>
      obtain rfl := Except.ok.inj hs
      rw [Stream.collect_ofTriples] at h
      obtain rfl := Except.ok.inj h
      simp [bind, Except.bind, pure, Except.pure]
  | some inserted =>
      obtain ⟨terms, hterms, hs⟩ := bind_eq_ok_iff.1 hs
      obtain rfl := Except.ok.inj hs
      rw [Stream.collect_ofTriples] at h
      obtain rfl := Except.ok.inj h
      refine Iff.trans ?_ (mem_ownTerms_iff hown hdomain hterms)
      simp

/-! ### Both ways -/

/-- A direct or indirect container that is addressable and asserts membership on a resource, with a
relation for each direction. -/
structure Relates (v : View) (c x : Resource) (relation inverse : String) : Prop where
  found : Resource.at? v.reader c.path = .ok (some c)
  variant : c.variant v.reader = .ok (some .direct) ∨ c.variant v.reader = .ok (some .indirect)
  noPairtree : c.declares v.reader fedoraPairtree = .ok false
  notInternal : c.node.isInternalChild = false
  relation : c.textProperty v.reader ldpHasMemberRelation = .ok (some relation)
  inverse : c.textProperty v.reader ldpIsMemberOfRelation = .ok (some inverse)
  names : Names v c x

theorem Relates.exists_variant {relation inverse : String} (h : Relates v c x relation inverse) :
    ∃ k, c.variant v.reader = .ok (some k) ∧ k ≠ .basic :=
  h.variant.elim (fun hk => ⟨_, hk, nofun⟩) (fun hk => ⟨_, hk, nofun⟩)

/-- What a container contributes of a child. -/
theorem Relates.contributes_iff {relation inverse : String} (hc : Relates v c x relation inverse)
    (ha : v.reader.ReadsFrom w) (hw : w.Filed) {k : ContainerVariant}
    (hk : c.variant v.reader = .ok (some k)) (hdirect : k ≠ .basic)
    {containers : List (Resource × ContainerVariant)} (htopic : v.subject x = .ok topic)
    (hcontainers : membershipContainers v x topic = .ok containers)
    {listing : List (Except Error Resource)} (hlisting : c.children v.reader = .ok listing)
    (hm : .ok m ∈ listing) :
    Contributes v x c m t ↔ ∃ part terms, memberPart v c k = .ok (some part) ∧
      memberTerms v m part = .ok terms ∧ ∃ term ∈ terms, t = ⟨topic, .iri relation, term⟩ := by
  have hrelation : memberRelation v c k = .ok (some relation) := by
    cases k with
    | basic => exact absurd rfl hdirect
    | direct => exact hc.relation
    | indirect => exact hc.relation
  constructor
  · rintro ⟨topic', containers', k', relation', part, listing', terms, htopic', hcontainers', hmem,
      hrelation', hpart, -, -, hterms, term, hterm, rfl⟩
    obtain rfl := Except.ok.inj (htopic.symm.trans htopic')
    have hk' := variant_of_mem_membershipContainers hcontainers' hmem
    obtain rfl := Option.some.inj (Except.ok.inj (hk.symm.trans hk'))
    obtain rfl := Option.some.inj (Except.ok.inj (hrelation.symm.trans hrelation'))
    exact ⟨part, terms, hpart, hterms, term, hterm, rfl⟩
  · rintro ⟨part, terms, hpart, hterms, term, hterm, rfl⟩
    have hmem := hc.names.mem_membershipContainers ha hw hc.found hk htopic hcontainers
    exact ⟨topic, containers, k, relation, part, listing, terms, htopic, hcontainers, hmem,
      hrelation, hpart, hlisting, hm, hterms, term, hterm, rfl⟩

/-- The members of a resource and what a child of a container states on its own side say the same
about the resource, the container and the child. -/
structure MembershipAgrees (v : View) (x c m : Resource) (topic : Term)
    (relation inverse : String) (forward backward : List Triple) : Prop where
  /-- What the container contributes is among the members. -/
  contributed : ∀ t, Contributes v x c m t → t ∈ forward
  /-- Either side states an IRI of the repository if the other one does. -/
  agree : ∀ iri, v.inDomain iri = true →
    (Contributes v x c m ⟨topic, .iri relation, .iri iri⟩ ↔
      ⟨.iri iri, .iri inverse, topic⟩ ∈ backward)
  /-- What is stated is the child itself, where the container does not name a property of it. -/
  child : c.variant v.reader = .ok (some .direct) ∨
      c.textProperty v.reader ldpInsertedContentRelation = .ok (some Vocab.Ldp.memberSubject) →
    ∀ iri, Contributes v x c m ⟨topic, .iri relation, .iri iri⟩ ↔ v.subject m = .ok (.iri iri)
  /-- Nothing is stated where an indirect container does not say what. -/
  nothing : c.variant v.reader = .ok (some .indirect) →
    c.textProperty v.reader ldpInsertedContentRelation = .ok none →
      (∀ t, ¬Contributes v x c m t) ∧ backward = []

theorem Relates.membershipAgrees {relation inverse : String} (hc : Relates v c x relation inverse)
    (ha : v.reader.ReadsFrom w) (hw : w.Filed) {listing : List (Except Error Resource)}
    (hlisting : c.children v.reader = .ok listing) (hm : .ok m ∈ listing) (hkind : m.kind ≠ .binary)
    (htopic : v.subject x = .ok topic) {forward backward : List Triple}
    (hforward : (membership v x >>= fun s => s.collect v) = .ok forward)
    (hbackward : (isMemberOf v m >>= fun s => s.collect v) = .ok backward) :
    MembershipAgrees v x c m topic relation inverse forward backward := by
  obtain ⟨s, hs, hforward⟩ := bind_eq_ok_iff.1 hforward
  obtain ⟨s', hs', hbackward⟩ := bind_eq_ok_iff.1 hbackward
  obtain ⟨k, hk, hdirect⟩ := hc.exists_variant
  obtain ⟨topic', htopic', hcontainers⟩ := bind_eq_ok_iff.1 hs
  obtain rfl := Except.ok.inj (htopic.symm.trans htopic')
  obtain ⟨containers, hcontainers, -⟩ := bind_eq_ok_iff.1 hcontainers
  have hcontributes {t : Triple} :=
    hc.contributes_iff (t := t) ha hw hk hdirect htopic hcontainers hlisting hm
  have hstated {iri : String} : Contributes v x c m ⟨topic, .iri relation, .iri iri⟩ ↔
      ∃ part terms, memberPart v c k = .ok (some part) ∧ memberTerms v m part = .ok terms ∧
        .iri iri ∈ terms := by
    simp [hcontributes]
  have hcontainer := container_of_mem_children ha hc.found hc.noPairtree hc.notInternal hlisting hm
    hkind
  have hresource := hc.names.membershipResource_eq htopic
  constructor
  case contributed => exact fun t ht => (mem_membership_iff hs hforward).2 ⟨c, m, ht⟩
  case agree =>
    intro iri hdomain
    rw [hstated]
    exact (mem_isMemberOf_iff hcontainer hk hdirect hc.inverse hresource hdomain hs' hbackward).symm
  case child =>
    intro hchild iri
    have hpart := memberPart_eq_subject hk hchild
    rw [hstated]
    constructor
    · rintro ⟨part, terms, hpart', hterms, hmem⟩
      obtain rfl := Option.some.inj (Except.ok.inj (hpart.symm.trans hpart'))
      obtain ⟨term, hterm, rfl⟩ := memberTerms_subject_eq_ok_iff.1 hterms
      rw [hterm, List.mem_singleton.1 hmem]
    · intro hterm
      exact ⟨.subject, _, hpart, memberTerms_subject_eq_ok_iff.2 ⟨_, hterm, rfl⟩,
        List.mem_singleton_self _⟩
  case nothing =>
    intro hindirect hnone
    obtain rfl := Option.some.inj (Except.ok.inj (hk.symm.trans hindirect))
    have hinserted : insertedRelation v c .indirect = .ok none := hnone
    constructor
    · intro t ht
      obtain ⟨part, terms, hpart, -⟩ := hcontributes.1 ht
      rw [memberPart_eq, hinserted] at hpart
      cases hpart
    · have hsilent : inverseRelation v m = .ok none := by
        rw [inverseRelation_eq hcontainer hk hdirect hc.inverse hresource, hinserted]
        rfl
      exact eq_nil_of_inverseRelation hsilent hs' hbackward

/-- **Membership is stated alike in both directions**, in every state of a host, through whatever
the state is read, and however the nodes are named. -/
theorem membership_agrees {r : Repository} (hr : r.IsNew) (calls : List Host.Call) (a : Access)
    (hv : v.reader = a.reader ((Host.mk r []).run calls)) {relation inverse : String}
    (hc : Relates v c x relation inverse) {listing : List (Except Error Resource)}
    (hlisting : c.children v.reader = .ok listing) (hm : .ok m ∈ listing) (hkind : m.kind ≠ .binary)
    (htopic : v.subject x = .ok topic) {forward backward : List Triple}
    (hforward : (membership v x >>= fun s => s.collect v) = .ok forward)
    (hbackward : (isMemberOf v m >>= fun s => s.collect v) = .ok backward) :
    MembershipAgrees v x c m topic relation inverse forward backward :=
  hc.membershipAgrees (hv ▸ a.readsFrom _) (Host.filed_current hr calls a.number) hlisting hm hkind
    htopic hforward hbackward

/-- A run that leaves an indirect container, which asserts membership on another node, with a child
that has two values to be inserted, one of which names something in the repository. -/
def inserting : List Host.Call :=
  let d (number : Nat) : Draws := ⟨fun j => toString number ++ ":" ++ toString j, .epoch⟩
  let put (number : Nat) (path name : String) (values : List Value) : Host.Call :=
    .mutate 0 (d number) (.putProperty (.many path name values))
  [.opening "default", .mutate 0 (d 1) (.addNode "/a" ntUnstructured),
    .mutate 0 (d 2) (.addNode "/c" ntUnstructured),
    .mutate 0 (d 3) (.addMixin "/c" ldpIndirectContainer),
    .mutate 0 (d 4) (.addNode "/c/m" ntUnstructured),
    put 5 "/c" ldpMembershipResource [.reference "1:0"],
    put 6 "/c" ldpHasMemberRelation [.uri "http://example.org/has"],
    put 7 "/c" ldpIsMemberOfRelation [.string "http://example.org/in"],
    put 8 "/c" ldpInsertedContentRelation [.uri "http://www.w3.org/ns/ldp#inserted"],
    put 9 "/c/m" "ldp:inserted" [.path "/c", .uri "http://example.org/far"]]

/-- The nodes of the run, named by IRIs. -/
def insertingView : View :=
  .ofMap ⟨"http://localhost"⟩ ((Access.direct 0).reader ((Host.start "root").run inserting))

/-- A node of the run. -/
def inserted (path identifier : String) (mixins : List String) : Resource :=
  ⟨⟨path, identifier, ntUnstructured, mixins⟩, .container, "default"⟩

/-- The value that names something in the repository is stated in both directions, and the other
one from the membership resource only. -/
theorem membership_agrees_inserting :
    let c := inserted "/c" "2:0" [ldpIndirectContainer]
    let m := inserted "/c/m" "4:0" []
    let x := inserted "/a" "1:0" []
    let has := "http://example.org/has"
    let within := "http://example.org/in"
    c.children insertingView.reader = .ok [.ok m] ∧ Relates insertingView c x has within ∧
      MembershipAgrees insertingView x c m (.iri "http://localhost/a") has within
        [⟨.iri "http://localhost/a", .iri has, .iri "http://localhost/c"⟩,
          ⟨.iri "http://localhost/a", .iri has, .iri "http://example.org/far"⟩]
        [⟨.iri "http://localhost/c", .iri within, .iri "http://localhost/a"⟩] := by
  intro c m x has within
  have hchildren : c.children insertingView.reader = .ok [.ok m] := by decide +kernel
  have hnames : Names insertingView c x :=
    .reference (p := .many "/c" ldpMembershipResource [.reference "1:0"]) (by decide +kernel) rfl
      (.inl rfl) (by decide +kernel)
  have hrelates : Relates insertingView c x has within :=
    ⟨by decide +kernel, by decide +kernel, by decide +kernel, by decide +kernel, by decide +kernel,
      by decide +kernel, hnames⟩
  have hmember : .ok m ∈ [Except.ok (ε := Error) m] := List.mem_singleton_self _
  have hkind : m.kind ≠ .binary := nofun
  have hreader : insertingView.reader =
      (Access.direct 0).reader ((Host.mk (.start "root") []).run inserting) := by
    rw [insertingView, View.ofMap, Host.start]
  exact ⟨hchildren, hrelates, membership_agrees (Repository.isNew_start "root") inserting
    (.direct 0) hreader hrelates hchildren hmember hkind (by decide +kernel) (by decide +kernel)
    (by decide +kernel)⟩

end LinkedStore.Description
