import LinkedStore.Description.Properties
import LinkedStore.Proofs.Description.MembershipCompleteness

/-!
# What properties state

A property states a triple by each of its values that has a term.  What a resource publishes is what
the visible properties of its nodes state, each in its turn, so that every triple of it is owed to a
value of a property.

## Main definitions

* `Description.States` : a property states a triple by one of its values.
* `Description.Publishes` : a resource publishes a triple by a value of a property of its own.
* `View.NamesNodes` : a view names nodes by terms that no language changes.

## Main statements

* `Description.mem_propertyTriples_iff` : the triples of a property are those that it states.
* `Description.publishes_of_emits` : each triple that a resource emits is published by a value.
* `Description.mem_properties_iff` : a resource that does not fail emits all that it publishes.
-/

namespace LinkedStore

/-! ### Terms of nodes -/

/-- Nodes are named by terms that no language changes. -/
def View.NamesNodes (v : View) : Prop :=
  ∀ path term, v.termForPath path = .ok term → term.isLiteral = false

theorem View.namesNodes_ofMap (m : IriMap) (r : Reader) : (View.ofMap m r).NamesNodes := by
  intro path term h
  obtain ⟨iri, -, rfl⟩ := map_eq_ok_iff.1 h
  rfl

theorem Property.tagged_of_isLiteral {p : Property} {term : Term} (h : term.isLiteral = false) :
    p.tagged term = term := by
  rw [tagged]
  cases p.language? with
  | none => rfl
  | some language =>
      cases term with
      | literal datatype tag value => cases h
      | _ => rfl

/-- The term of a resource is the same in every language. -/
theorem View.NamesNodes.tagged_subject {v : View} (hv : v.NamesNodes) {x : Resource} {term : Term}
    (h : v.subject x = .ok term) (p : Property) : p.tagged term = term := by
  obtain ⟨described, -, h⟩ := bind_eq_ok_iff.1 h
  exact Property.tagged_of_isLiteral (hv _ _ h)

namespace Description

variable {v : View} {x half : Resource} {p : Property} {value : Value} {subject topic : Term}
  {t : Triple}

/-! ### One property -/

/-- A property states a triple by one of its values: of a given subject, under the IRI of its public
name, with the term of the value in the language of the property. -/
def States (v : View) (subject : Term) (p : Property) (value : Value) (t : Triple) : Prop :=
  value ∈ p.values ∧ ∃ iri term, Naming.iri v.reader p.publicName = .ok iri ∧
    v.termOf? value = .ok (some term) ∧ t = ⟨subject, .iri iri, p.tagged term⟩

/-- Where a list of values has terms, each value of it has one or none. -/
theorem exists_termOf?_of_termsOf {values : List Value} {terms : List Term}
    (h : v.termsOf values = .ok terms) (hvalue : value ∈ values) :
    ∃ term?, v.termOf? value = .ok term? := by
  induction values generalizing terms with
  | nil => cases hvalue
  | cons first values ih =>
      obtain ⟨term?, hterm, h⟩ := bind_eq_ok_iff.1 h
      obtain ⟨more, hmore, -⟩ := bind_eq_ok_iff.1 h
      rcases List.mem_cons.1 hvalue with rfl | hvalue
      · exact ⟨term?, hterm⟩
      · exact ih hmore hvalue

/-- The triples of a property are those that it states. -/
theorem mem_propertyTriples_iff {triples : List Triple}
    (h : v.propertyTriples subject p = .ok triples) :
    t ∈ triples ↔ ∃ value, States v subject p value t := by
  obtain ⟨iri, hiri, h⟩ := bind_eq_ok_iff.1 h
  obtain ⟨terms, hterms, h⟩ := bind_eq_ok_iff.1 h
  obtain rfl := pure_eq_ok_iff.1 h
  rw [List.mem_map]
  constructor
  · rintro ⟨term, hterm, rfl⟩
    obtain ⟨value, hvalue, hterm⟩ := (mem_termsOf_iff hterms).1 hterm
    exact ⟨value, hvalue, iri, term, hiri, hterm, rfl⟩
  · rintro ⟨value, hvalue, iri', term, hiri', hterm, rfl⟩
    obtain rfl := Except.ok.inj (hiri.symm.trans hiri')
    exact ⟨term, (mem_termsOf_iff hterms).2 ⟨value, hvalue, hterm⟩, rfl⟩

/-- A property that is not hidden shows what it states. -/
theorem emits_visibleTriples_iff {frozen : Bool} {s : Stream View}
    (hs : visibleTriples subject frozen p v = .ok s) :
    s.Emits v t ↔ p.isHidden frozen = false ∧ ∃ value, States v subject p value t := by
  rw [visibleTriples] at hs
  cases hhidden : p.isHidden frozen with
  | true =>
      rw [hhidden] at hs
      obtain rfl := Except.ok.inj hs
      simp
  | false =>
      rw [hhidden] at hs
      obtain ⟨triples, htriples, hs⟩ := bind_eq_ok_iff.1 hs
      obtain rfl := Except.ok.inj hs
      rw [Stream.emits_ofTriples, mem_propertyTriples_iff htriples]
      simp

/-! ### All properties of a resource -/

/-- A resource publishes a triple by a value of a property of its own: a visible property of one of
its nodes states the triple. -/
def Publishes (v : View) (x : Resource) (p : Property) (value : Value) (t : Triple) : Prop :=
  ∃ subject halves half listing, v.subject x = .ok subject ∧ x.halves v.reader = .ok halves ∧
    half ∈ halves ∧ half.properties v.reader = .ok listing ∧ .ok p ∈ listing ∧
    p.isHidden half.node.isFrozen = false ∧ States v subject p value t

/-- Each triple that a resource emits of its properties is published by a value of one of them. -/
theorem publishes_of_emits {s : Stream View} (hs : properties v x = .ok s) (h : s.Emits v t) :
    ∃ p value, Publishes v x p value t := by
  obtain ⟨subject, hsubject, hs⟩ := bind_eq_ok_iff.1 hs
  obtain ⟨halves, hhalves, hs⟩ := bind_eq_ok_iff.1 hs
  obtain rfl := Except.ok.inj hs
  obtain ⟨half, hmem, s, hs, h⟩ := Stream.exists_of_emits_flatMap h
  have hhalf := (List.mem_map_of_injective fun _ _ => Except.ok.inj).1 hmem
  obtain ⟨listing, hlisting, hs⟩ := bind_eq_ok_iff.1 hs
  obtain rfl := Except.ok.inj hs
  obtain ⟨p, hp, s, hs, h⟩ := Stream.exists_of_emits_flatMap h
  obtain ⟨hvisible, value, hstates⟩ := (emits_visibleTriples_iff hs).1 h
  exact ⟨p, value, subject, halves, half, listing, hsubject, hhalves, hhalf, hlisting, hp, hvisible,
    hstates⟩

/-- The properties of each node of a resource that does not fail can be drained by themselves. -/
theorem exists_nodeProperties_of_collect {triples : List Triple}
    (h : (properties v x >>= fun s => s.collect v) = .ok triples) {halves : List Resource}
    (hhalves : x.halves v.reader = .ok halves) (hhalf : half ∈ halves) :
    ∃ subject s part, v.subject x = .ok subject ∧ nodeProperties subject half v = .ok s ∧
      s.collect v = .ok part ∧ part ⊆ triples := by
  obtain ⟨s, hs, h⟩ := bind_eq_ok_iff.1 h
  obtain ⟨subject, hsubject, hs⟩ := bind_eq_ok_iff.1 hs
  obtain ⟨halves', hhalves', hs⟩ := bind_eq_ok_iff.1 hs
  obtain rfl := Except.ok.inj (hhalves.symm.trans hhalves')
  obtain rfl := Except.ok.inj hs
  have hlisted := List.mem_map_of_mem (f := Except.ok (ε := Error)) hhalf
  obtain ⟨s, part, hs, hpart⟩ := Stream.exists_collect_of_mem h hlisted
  exact ⟨subject, s, part, hsubject, hs, hpart, fun t ht =>
    (Stream.mem_collect_flatMap_iff h).2 ⟨half, hlisted, s, part, hs, hpart, ht⟩⟩

/-- The properties of every node of a resource that does not fail are listed. -/
theorem exists_listing_of_collect {triples : List Triple}
    (h : (properties v x >>= fun s => s.collect v) = .ok triples) {halves : List Resource}
    (hhalves : x.halves v.reader = .ok halves) (hhalf : half ∈ halves) :
    ∃ listing, half.properties v.reader = .ok listing := by
  obtain ⟨subject, s, part, -, hs, -⟩ := exists_nodeProperties_of_collect h hhalves hhalf
  obtain ⟨listing, hlisting, -⟩ := bind_eq_ok_iff.1 hs
  exact ⟨listing, hlisting⟩

/-- **What a resource publishes** is what it emits, unless it fails. -/
theorem mem_properties_iff {triples : List Triple}
    (h : (properties v x >>= fun s => s.collect v) = .ok triples) :
    t ∈ triples ↔ ∃ p value, Publishes v x p value t := by
  constructor
  · intro ht
    obtain ⟨s, hs, h⟩ := bind_eq_ok_iff.1 h
    exact publishes_of_emits hs ((Stream.emits_iff_mem_collect h).2 ht)
  · rintro ⟨p, value, subject, halves, half, listing, hsubject, hhalves, hhalf, hlisting, hp,
      hvisible, hstates⟩
    obtain ⟨subject', s, part, hsubject', hs, hpart, hsub⟩ :=
      exists_nodeProperties_of_collect h hhalves hhalf
    obtain rfl := Except.ok.inj (hsubject.symm.trans hsubject')
    obtain ⟨listing', hlisting', hs⟩ := bind_eq_ok_iff.1 hs
    obtain rfl := Except.ok.inj (hlisting.symm.trans hlisting')
    obtain rfl := Except.ok.inj hs
    obtain ⟨s, shown, hs, hshown⟩ := Stream.exists_collect_of_mem hpart hp
    refine hsub ((Stream.mem_collect_flatMap_iff hpart).2 ⟨p, hp, s, shown, hs, hshown, ?_⟩)
    exact (Stream.emits_iff_mem_collect hshown).1
      ((emits_visibleTriples_iff hs).2 ⟨hvisible, value, hstates⟩)

end Description

end LinkedStore
