import LinkedStore.Proofs.Description.HalvesApart

/-!
# Inserted content

An indirect container states the values of one property of each child: of the one that is stored
under the name that an IRI is led back to.  A child publishes under the IRI whatever it stores under
any name with that IRI, so that it may publish more.  Properties whose names end in a language, or
begin with another prefix of the same namespace, are passed over, and what is stated has no
language.

## Main definitions

* `Description.Inserts` : an indirect container states the values of a property on itself.
* `Description.SeesInserted` : it states what its children publish by that property.

## Main statements

* `Description.Inserts.contributes_iff` : what such a container states of a child.
* `Description.sees_inserted` : it states what a child publishes, in every state of a host.
* `Description.not_sees_all_inserted` : it does not state all that a child publishes under the IRI.
-/

namespace LinkedStore.Description

open Vocab.Name

variable {v : View} {h : Host} {a : Access} {c m : Resource} {p : Property} {value : Value}
  {topic term : Term} {t : Triple} {triples : List Triple} {relation inserted name : String}
  {listing : List (Except Error Resource)}

/-! ### What a container inserts -/

/-- An indirect container asserts membership on itself, with a relation, and states of its children
the values of the property under the name that an IRI is led back to. -/
structure Inserts (v : View) (c : Resource) (topic : Term) (relation inserted name : String) :
    Prop where
  variant : c.variant v.reader = .ok (some .indirect)
  subject : v.subject c = .ok topic
  resource : membershipResource v c = .ok (some topic)
  hasRelation : c.textProperty v.reader ldpHasMemberRelation = .ok (some relation)
  hasInserted : c.textProperty v.reader ldpInsertedContentRelation = .ok (some inserted)
  other : inserted ≠ Vocab.Ldp.memberSubject
  hasName : Naming.name? v.reader inserted = .ok (some name)

namespace Inserts

theorem memberRelation_eq (hc : Inserts v c topic relation inserted name) :
    memberRelation v c .indirect = .ok (some relation) :=
  hc.hasRelation

theorem memberPart_eq (hc : Inserts v c topic relation inserted name) :
    memberPart v c .indirect = .ok (some (.valuesOf name)) :=
  memberPart_indirect_eq_ok_iff.2 ⟨inserted, hc.hasInserted, .inr ⟨hc.other, name, hc.hasName, rfl⟩⟩

/-- The container is found among those that assert membership on it. -/
theorem mem_membershipContainers (hc : Inserts v c topic relation inserted name)
    {containers : List (Resource × ContainerVariant)}
    (hcontainers : membershipContainers v c topic = .ok containers) :
    (c, .indirect) ∈ containers := by
  obtain ⟨own, listing, naming, hown, -, -, rfl⟩ := membershipContainers_eq_ok hcontainers
  obtain rfl := Except.ok.inj
    ((ownContainer_eq_some_iff.2 ⟨rfl, hc.variant, hc.resource⟩).symm.trans hown)
  exact List.mem_append_left _ (List.mem_singleton_self _)

/-- If the members of the container are drained, there are terms for each child. -/
theorem exists_memberTerms (hc : Inserts v c topic relation inserted name)
    (hdrained : (membership v c >>= fun s => s.collect v) = .ok triples)
    (hlisting : c.children v.reader = .ok listing) (hm : .ok m ∈ listing) :
    ∃ containers terms, membershipContainers v c topic = .ok containers ∧
      (c, .indirect) ∈ containers ∧ memberTerms v m (.valuesOf name) = .ok terms := by
  obtain ⟨containers, hcontainers, hdrained⟩ := exists_containers_of_collect hc.subject hdrained
  have hmem := hc.mem_membershipContainers hcontainers
  obtain ⟨s, part, hs, hpart⟩ := Stream.exists_collect_of_mem hdrained (List.mem_map_of_mem hmem)
  obtain ⟨terms, hterms⟩ :=
    exists_memberTerms_of_collect hc.memberRelation_eq hc.memberPart_eq hlisting hm hs hpart
  exact ⟨containers, terms, hcontainers, hmem, hterms⟩

/-- What the container states of a child is the values of the property. -/
theorem contributes_iff (hc : Inserts v c topic relation inserted name)
    (hdrained : (membership v c >>= fun s => s.collect v) = .ok triples)
    (hlisting : c.children v.reader = .ok listing) (hm : .ok m ∈ listing) :
    Contributes v c c m t ↔ ∃ p value term, m.property v.reader name = .ok (some p) ∧
      value ∈ p.values ∧ v.termOf? value = .ok (some term) ∧
      t = ⟨topic, .iri relation, term⟩ := by
  obtain ⟨containers, terms, hcontainers, hmem, hterms⟩ :=
    hc.exists_memberTerms hdrained hlisting hm
  constructor
  · rintro ⟨topic', containers', k, relation', part, listing', terms, htopic', hcontainers', hck,
      hrelation, hpart, -, -, hterms, term, hterm, rfl⟩
    obtain rfl := Except.ok.inj (hc.subject.symm.trans htopic')
    have hk := variant_of_mem_membershipContainers hcontainers' hck
    obtain rfl := Option.some.inj (Except.ok.inj (hc.variant.symm.trans hk))
    obtain rfl := Option.some.inj (Except.ok.inj (hc.memberRelation_eq.symm.trans hrelation))
    obtain rfl := Option.some.inj (Except.ok.inj (hc.memberPart_eq.symm.trans hpart))
    obtain ⟨p?, hproperty, hterms⟩ := bind_eq_ok_iff.1 hterms
    cases p? with
    | none =>
        obtain rfl := Except.ok.inj hterms
        cases hterm
    | some p =>
        obtain ⟨value, hvalue, hterm⟩ := (mem_termsOf_iff hterms).1 hterm
        exact ⟨p, value, term, hproperty, hvalue, hterm, rfl⟩
  · rintro ⟨p, value, term, hproperty, hvalue, hterm, rfl⟩
    -- The members have been drained, so that every value of the property has been converted.
    have hmembers : v.termsOf p.values = .ok terms := by
      rw [← hterms, memberTerms, hproperty]
      rfl
    exact ⟨topic, containers, .indirect, relation, .valuesOf name, listing, terms, hc.subject,
      hcontainers, hmem, hc.memberRelation_eq, hc.memberPart_eq, hlisting, hm, hterms, term,
      (mem_termsOf_iff hmembers).2 ⟨value, hvalue, hterm⟩, rfl⟩

/-- A stored property of a child is found if the members of the container are drained. -/
theorem property_eq (hc : Inserts v c topic relation inserted name) (hv : v.reader = a.reader h)
    (hdrained : (membership v c >>= fun s => s.collect v) = .ok triples)
    (hlisting : c.children v.reader = .ok listing) (hm : .ok m ∈ listing)
    (hp : (h.current a.number).property? m.path name = some p) :
    m.property v.reader name = .ok (some p) := by
  obtain ⟨-, terms, -, -, hterms⟩ := hc.exists_memberTerms hdrained hlisting hm
  obtain ⟨p?, hproperty, -⟩ := bind_eq_ok_iff.1 hterms
  have hstored : (a.reader h).property m.path name = .ok p? := hv ▸ hproperty
  rw [hproperty, ← Access.property?_eq hstored, hp]

end Inserts

/-! ### What a child publishes -/

/-- What a container publishes is stated by a property that it stores. -/
theorem Publishes.states (hv : v.reader = a.reader h) (hw : (h.current a.number).Filed)
    (hkind : m.kind = .container) (hpublishes : Publishes v m p value t) :
    (h.current a.number).property? m.path p.name = some p ∧
      ∃ subject, v.subject m = .ok subject ∧ States v subject p value t := by
  obtain ⟨subject, halves, half, listing, hsubject, hhalves, hhalf, hlisting, hp, -, hstates⟩ :=
    hpublishes
  obtain rfl := Except.ok.inj ((Resource.halves_eq_singleton (.inl hkind)).symm.trans hhalves)
  obtain rfl := List.mem_singleton.1 hhalf
  have hlisted : (a.reader h).properties half.path = .ok listing := hv ▸ hlisting
  obtain ⟨name, hstored⟩ :=
    Workspace.mem_propertiesOf.1 ((Access.mem_properties_iff hlisted).1 hp)
  obtain ⟨-, rfl, -⟩ := hw.property hstored
  exact ⟨hstored, subject, hsubject, hstates⟩

/-- A container that states the values of a property on itself, drained to `triples`, states what a
child publishes by that property. -/
structure SeesInserted (v : View) (c m : Resource) (topic : Term)
    (relation inserted name : String) (triples : List Triple) : Prop where
  /-- Whatever the child emits under the IRI it publishes by a value of a property. -/
  published : ∀ s, properties v m = .ok s → ∀ subject o,
    s.Emits v ⟨subject, .iri inserted, o⟩ →
      ∃ p value, Publishes v m p value ⟨subject, .iri inserted, o⟩
  /-- What it publishes by the property of the name, without a language, the container states. -/
  seen : ∀ p value subject o, Publishes v m p value ⟨subject, .iri inserted, o⟩ →
    p.name = name → p.language? = none → ⟨topic, .iri relation, o⟩ ∈ triples
  /-- If the name ends in a language, what is stated lacks it. -/
  untagged : ∀ p value t, Publishes v m p value t → p.name = name →
    ∃ term, t.object = p.tagged term ∧ ⟨topic, .iri relation, term⟩ ∈ triples
  /-- Of the child, the container states the values of that property and nothing else. -/
  contributed : ∀ t, Contributes v c c m t ↔ ∃ p value term,
    m.property v.reader name = .ok (some p) ∧ value ∈ p.values ∧
      v.termOf? value = .ok (some term) ∧ t = ⟨topic, .iri relation, term⟩

/-- **An indirect container states what its children publish by the property that it names**, in
every state of a host, through whatever the state is read, and however the nodes are named. -/
theorem sees_inserted {r : Repository} (hr : r.IsNew) (calls : List Host.Call) (a : Access)
    (hv : v.reader = a.reader ((Host.mk r []).run calls))
    (hc : Inserts v c topic relation inserted name) (hlisting : c.children v.reader = .ok listing)
    (hm : .ok m ∈ listing) (hkind : m.kind = .container)
    (hdrained : (membership v c >>= fun s => s.collect v) = .ok triples) :
    SeesInserted v c m topic relation inserted name triples := by
  have hcontributes {t : Triple} := hc.contributes_iff (t := t) hdrained hlisting hm
  have huntagged : ∀ p value t, Publishes v m p value t → p.name = name →
      ∃ term, t.object = p.tagged term ∧ ⟨topic, .iri relation, term⟩ ∈ triples := by
    rintro p value t hpublishes rfl
    obtain ⟨hp, subject, -, hvalue, iri, term, -, hterm, rfl⟩ :=
      hpublishes.states hv (Host.filed_current hr calls a.number) hkind
    refine ⟨term, rfl, ?_⟩
    obtain ⟨s, hs, hcollect⟩ := bind_eq_ok_iff.1 hdrained
    exact (mem_membership_iff hs hcollect).2 ⟨c, m, hcontributes.2
      ⟨p, value, term, hc.property_eq hv hdrained hlisting hm hp, hvalue, hterm, rfl⟩⟩
  constructor
  case published => exact fun s hs subject o hemits => publishes_of_emits hs hemits
  case seen =>
    intro p value subject o hpublishes hname hplain
    obtain ⟨term, rfl, hmem⟩ := huntagged p value _ hpublishes hname
    rwa [Property.tagged, hplain]
  case untagged => exact huntagged
  case contributed => exact fun t => hcontributes

/-- A run that leaves an indirect container with a child that holds a label, and one in a
language. -/
def labelling : List Host.Call :=
  Host.runOf [.createContainer "/c", .addMixin "/c" ldpIndirectContainer,
    .putProperty (.single "/c" ldpHasMemberRelation (.uri "http://example.org/has")),
    .putProperty (.single "/c" ldpInsertedContentRelation (.uri Vocab.Rdfs.label)),
    .createContainer "/c/m", .putProperty (.single "/c/m" "rdfs:label" (.string "plain")),
    .putProperty (.single "/c/m" "rdfs:label@en" (.string "tagged"))]

/-- The nodes of the run, named by IRIs. -/
def labellingView : View :=
  .ofMap ⟨"http://localhost"⟩ ((Access.direct 0).reader ((Host.start "root").run labelling))

/-- The container of the run. -/
def labelContainer : Resource :=
  ⟨⟨"/c", "0:0", ntFolder, [fedoraContainer, ldpIndirectContainer]⟩, .container, "default"⟩

/-- The child of the run. -/
def labelled : Resource := ⟨⟨"/c/m", "4:0", ntFolder, [fedoraContainer]⟩, .container, "default"⟩

theorem inserts_labelling :
    Inserts labellingView labelContainer (.iri "http://localhost/c") "http://example.org/has"
      Vocab.Rdfs.label "rdfs:label" := by
  constructor <;> decide +kernel

/-- What the container of the run states of the label of its child. -/
def plainLabel : Triple :=
  ⟨.iri "http://localhost/c", .iri "http://example.org/has", .string "plain"⟩

theorem collect_labelling :
    (membership labellingView labelContainer >>= fun s => s.collect labellingView) =
      .ok [plainLabel] := by
  decide +kernel

/-- The container states the label that has no language. -/
theorem sees_inserted_labelling :
    Inserts labellingView labelContainer (.iri "http://localhost/c") "http://example.org/has"
        Vocab.Rdfs.label "rdfs:label" ∧
      SeesInserted labellingView labelContainer labelled (.iri "http://localhost/c")
        "http://example.org/has" Vocab.Rdfs.label "rdfs:label" [plainLabel] := by
  have hreader : labellingView.reader =
      (Access.direct 0).reader ((Host.mk (.start "root") []).run labelling) := by
    rw [labellingView, View.ofMap, Host.start]
  have hchildren : labelContainer.children labellingView.reader = .ok [.ok labelled] := by
    decide +kernel
  exact ⟨inserts_labelling, sees_inserted (Repository.isNew_start "root") labelling (.direct 0)
    hreader inserts_labelling hchildren (List.mem_singleton_self _) rfl collect_labelling⟩

/-- So it is not true that the container states all that a child publishes under the IRI: a label in
a language is passed over. -/
theorem not_sees_all_inserted :
    ¬∀ (calls : List Host.Call) (v : View) (c m : Resource) (topic subject o : Term)
        (relation inserted name : String) (listing : List (Except Error Resource))
        (own triples : List Triple),
      v.reader = (Access.direct 0).reader ((Host.start "root").run calls) →
      Inserts v c topic relation inserted name → c.children v.reader = .ok listing →
      .ok m ∈ listing → m.kind = .container → v.subject m = .ok subject →
      (properties v m >>= fun s => s.collect v) = .ok own → ⟨subject, .iri inserted, o⟩ ∈ own →
      (membership v c >>= fun s => s.collect v) = .ok triples →
      ⟨topic, .iri relation, o⟩ ∈ triples := by
  intro hall
  let tagged : Term := .literal Vocab.Rdf.langString (some "en") (.string "tagged")
  have hpublished : ((properties labellingView labelled >>= fun s => s.collect labellingView).map
      fun own => decide (⟨.iri "http://localhost/c/m", .iri Vocab.Rdfs.label, tagged⟩ ∈ own)) =
        .ok true := by
    decide +kernel
  obtain ⟨own, hown, hmem⟩ := map_eq_ok_iff.1 hpublished
  have hstated := hall labelling labellingView labelContainer labelled _
    (.iri "http://localhost/c/m") tagged _ _ _ [.ok labelled] own [plainLabel]
    (by rw [labellingView, View.ofMap]) inserts_labelling (by decide +kernel)
    (List.mem_singleton_self _) rfl (by decide +kernel) hown (of_decide_eq_true hmem)
    collect_labelling
  exact absurd hstated (by decide +kernel)

end LinkedStore.Description
