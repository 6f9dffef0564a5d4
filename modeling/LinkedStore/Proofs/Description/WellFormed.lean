import LinkedStore.Description.FixityReport
import LinkedStore.Proofs.Description.Assembly
import LinkedStore.Proofs.Description.Embedding
import LinkedStore.Proofs.Description.Publication
import LinkedStore.Proofs.Rdf.Statement
import LinkedStore.Proofs.Stream.Holding

/-!
# Descriptions are well-formed

Triples can be put together from any terms.  Those of a description and of a fixity report are
nevertheless statements of RDF, as long as nodes are named by IRIs and blank nodes: the subject is
such a name or an IRI, the predicate is an IRI, and a literal has a language tag only if it is text
under the datatype for that.  Nothing else comes of a value: it is an IRI, a literal without a tag,
or the name of a node, and only literals take a tag.  If nodes are named by IRIs, there are no blank
nodes at all.

A description is worked out while it is pulled.  The store, and the names of nodes, may be others
each time.

## Main definitions

* `Triple.WellFormed`, `Triple.IsGround` : what is asked of a triple.
* `View.NamesBy` : a view names nodes by terms that satisfy a condition.
* `Triple.Formed` : a triple is made of names that satisfy the condition, IRIs and literals.
* `Description.Describes` : a stream is a description of a resource, or a report on its copies.

## Main statements

* `View.NamesBy.stated_termOf?` : the terms of values.
* `Description.forms_generate` : every aspect forms its triples.
* `Description.Describes.forms` : so do descriptions and fixity reports.
* `Description.Describes.wellFormed` : **descriptions are well-formed**, whoever pulls them when.
-/

namespace LinkedStore

variable {names : Term → Prop}

/-! ### Terms -/

namespace Term

variable {t : Term}

/-- A language tag stands with text, under the datatype of text in a language. -/
def TagsText (t : Term) : Prop :=
  ∀ language, t.language? = some language → ∃ s, t = .langString s language

/-- A condition on names of nodes: all IRIs satisfy it, and no literal does. -/
structure IsNaming (names : Term → Prop) : Prop where
  iri : ∀ iri, names (.iri iri)
  notLiteral : ∀ t, names t → t.isLiteral = false

theorem isNaming_isLiteral : IsNaming fun t => t.isLiteral = false where
  iri _ := rfl
  notLiteral _ := id

theorem isNaming_isIri : IsNaming fun t => t.isIri = true where
  iri _ := rfl
  notLiteral t ht := by
    cases t with
    | literal => cases ht
    | _ => rfl

/-- A term that may be stated about something: the name of a node, or a literal. -/
structure Stated (names : Term → Prop) (t : Term) : Prop where
  named : t.isLiteral = false → names t
  tagsText : t.TagsText

theorem stated_literal (datatype : String) (value : LiteralValue) :
    (literal datatype none value).Stated names where
  named h := nomatch h
  tagsText _ h := nomatch h

theorem stated_langString (s language : String) : (langString s language).Stated names where
  named h := nomatch h
  tagsText _ h := ⟨s, Option.some.inj h ▸ rfl⟩

theorem Stated.withLanguage (ht : t.Stated names) (language : String) :
    (t.withLanguage language).Stated names := by
  fun_cases Term.withLanguage t language
  case case1 => exact stated_langString _ language
  case case2 => exact ht
  case case3 => exact ht

theorem Stated.tagged (ht : t.Stated names) (p : Property) : (p.tagged t).Stated names := by
  rw [Property.tagged]
  split
  · exact ht.withLanguage _
  · exact ht

theorem IsNaming.stated (hnames : IsNaming names) (ht : names t) : t.Stated names where
  named _ := ht
  tagsText language h := by
    have hliteral := hnames.notLiteral t ht
    cases t with
    | literal => cases hliteral
    | _ => cases h

/-- The term of a value that points at no node. -/
theorem IsNaming.stated_term? (hnames : IsNaming names) {value : Value}
    (ht : value.term? = some t) : t.Stated names := by
  cases value <;> cases ht
  case string s =>
    rw [Value.textLiteral]
    split <;> exact stated_literal _ _
  case uri iri => exact hnames.stated (hnames.iri iri)
  case boolean | long | double | decimal | date | name | binary => exact stated_literal _ _

end Term

/-! ### Views -/

namespace View

variable {v : View}

/-- Nodes are named by terms that satisfy a condition. -/
def NamesBy (names : Term → Prop) (v : View) : Prop :=
  ∀ path term, v.termForPath path = .ok term → names term

theorem namesBy_ofMap (m : IriMap) (r : Reader) :
    (View.ofMap m r).NamesBy fun t => t.isIri = true := by
  intro path term h
  obtain ⟨iri, -, rfl⟩ := map_eq_ok_iff.1 h
  rfl

namespace NamesBy

theorem subject (hv : v.NamesBy names) {x : Resource} {term : Term}
    (h : v.subject x = .ok term) : names term := by
  obtain ⟨described, -, h⟩ := bind_eq_ok_iff.1 h
  exact hv _ _ h

/-- The term of any value. -/
theorem stated_termOf? (hv : v.NamesBy names) (hnames : Term.IsNaming names) {value : Value}
    {term : Term} (h : v.termOf? value = .ok (some term)) : term.Stated names := by
  cases hvalue : value.term? with
  | some u =>
      rw [View.termOf?, hvalue] at h
      exact hnames.stated_term? (hvalue.trans (Except.ok.inj h))
  | none =>
      obtain ⟨path, hpath⟩ := Term.termForPath_of_termOf? hvalue h
      exact hnames.stated (hv path term hpath)

theorem stated_termsOf (hv : v.NamesBy names) (hnames : Term.IsNaming names)
    {values : List Value} {terms : List Term} (h : v.termsOf values = .ok terms) :
    ∀ term ∈ terms, term.Stated names := by
  intro term hterm
  obtain ⟨value, -, hvalue⟩ := (Description.mem_termsOf_iff h).1 hterm
  exact hv.stated_termOf? hnames hvalue

end NamesBy

end View

/-! ### Triples -/

namespace Triple

/-- The triple is a statement of RDF. -/
structure WellFormed (t : Triple) : Prop where
  subject : t.subject.isIri = true ∨ t.subject.isBlank = true
  predicate : t.predicate.isIri = true
  object : t.object.TagsText

/-- There is no blank node in the triple. -/
structure IsGround (t : Triple) : Prop where
  subject : t.subject.isBlank = false
  predicate : t.predicate.isBlank = false
  object : t.object.isBlank = false

/-- The triple is made of names that satisfy a condition, IRIs and literals, each in its place. -/
structure Formed (names : Term → Prop) (t : Triple) : Prop where
  subject : names t.subject
  predicate : t.predicate.isIri = true
  object : t.object.Stated names

theorem Formed.isWellFormed {t : Triple} (hnames : Term.IsNaming names) (ht : t.Formed names) :
    t.WellFormed where
  subject := by
    have hliteral := hnames.notLiteral _ ht.subject
    cases hsubject : t.subject with
    | blank label => exact .inr rfl
    | iri iri => exact .inl rfl
    | literal datatype language value => rw [hsubject] at hliteral; cases hliteral
  predicate := ht.predicate
  object := ht.object.tagsText

theorem Formed.isGround {t : Triple} (ht : t.Formed fun u => u.isIri = true) : t.IsGround where
  subject := by
    have hsubject := ht.subject
    cases h : t.subject with
    | blank label => rw [h] at hsubject; cases hsubject
    | _ => rfl
  predicate := by
    have hpredicate := ht.predicate
    cases h : t.predicate with
    | blank label => rw [h] at hpredicate; cases hpredicate
    | _ => rfl
  object := by
    have hobject := ht.object.named
    cases h : t.object with
    | blank label => rw [h] at hobject; cases hobject rfl
    | _ => rfl

end Triple

namespace Description

variable {v : View} {x : Resource} {topic : Term} {s : Stream View}

/-- In views that name nodes by terms that satisfy a condition, the stream holds triples that are
made of such names, IRIs and literals. -/
def Forms (names : Term → Prop) (s : Stream View) : Prop :=
  s.Holds (View.NamesBy names) (Triple.Formed names)

/-- In views that name nodes by terms that satisfy a condition, the flow holds triples that are made
of such names, IRIs and literals. -/
def FormsFlow (names : Term → Prop) (flow : Flow View Triple) : Prop :=
  flow.Holds (View.NamesBy names) (Triple.Formed names)

section Generators

variable (hnames : Term.IsNaming names)

include hnames

/-! ### Types -/

theorem forms_typed (htopic : names topic) (iris : List String) :
    Forms names (.ofTriples topic (iris.map (typed topic))) := by
  refine Stream.holds_ofTriples fun t ht => ?_
  obtain ⟨iri, -, rfl⟩ := List.mem_map.1 ht
  exact ⟨htopic, rfl, hnames.stated (hnames.iri iri)⟩

theorem forms_model (hv : v.NamesBy names) (hs : model v x = .ok s) : Forms names s := by
  obtain ⟨topic, htopic, hs⟩ := bind_eq_ok_iff.1 hs
  obtain ⟨iris, -, hs⟩ := bind_eq_ok_iff.1 hs
  exact pure_eq_ok_iff.1 hs ▸ forms_typed hnames (hv.subject htopic) iris

theorem forms_types (hv : v.NamesBy names) (hs : types v x = .ok s) : Forms names s := by
  obtain ⟨topic, htopic, hs⟩ := bind_eq_ok_iff.1 hs
  obtain ⟨iris, -, hs⟩ := bind_eq_ok_iff.1 hs
  exact pure_eq_ok_iff.1 hs ▸ forms_typed hnames (hv.subject htopic) iris

/-! ### Properties -/

theorem formed_propertyTriples (hv : v.NamesBy names) (htopic : names topic) {p : Property}
    {triples : List Triple} (h : v.propertyTriples topic p = .ok triples) :
    ∀ t ∈ triples, t.Formed names := by
  intro t ht
  obtain ⟨value, -, iri, term, -, hterm, rfl⟩ := (mem_propertyTriples_iff h).1 ht
  exact ⟨htopic, rfl, (hv.stated_termOf? hnames hterm).tagged p⟩

theorem forms_visibleTriples (hv : v.NamesBy names) (htopic : names topic) {frozen : Bool}
    {p : Property} (hs : visibleTriples topic frozen p v = .ok s) : Forms names s := by
  rw [visibleTriples] at hs
  split at hs
  · exact pure_eq_ok_iff.1 hs ▸ Stream.holds_empty
  · obtain ⟨triples, htriples, hs⟩ := bind_eq_ok_iff.1 hs
    obtain rfl := pure_eq_ok_iff.1 hs
    exact Stream.holds_ofTriples (formed_propertyTriples hnames hv htopic htriples)

theorem forms_properties (hv : v.NamesBy names) (hs : properties v x = .ok s) : Forms names s := by
  obtain ⟨topic, htopic, hs⟩ := bind_eq_ok_iff.1 hs
  obtain ⟨owners, -, hs⟩ := bind_eq_ok_iff.1 hs
  obtain rfl := pure_eq_ok_iff.1 hs
  have htopic := hv.subject htopic
  refine .flatMap fun owner _ now part _ hpart => ?_
  obtain ⟨listing, -, hpart⟩ := bind_eq_ok_iff.1 hpart
  obtain rfl := pure_eq_ok_iff.1 hpart
  exact .flatMap fun p _ now shown hnow hshown => forms_visibleTriples hnames hnow htopic hshown

theorem forms_references (hs : references v x = .ok s) : Forms names s := by
  obtain ⟨topic, -, hs⟩ := bind_eq_ok_iff.1 hs
  obtain ⟨targets, -, hs⟩ := bind_eq_ok_iff.1 hs
  obtain rfl := pure_eq_ok_iff.1 hs
  refine .flatMap fun target _ now part _ hpart => ?_
  obtain ⟨listing, -, hpart⟩ := bind_eq_ok_iff.1 hpart
  obtain rfl := pure_eq_ok_iff.1 hpart
  refine .flatMap fun p _ now shown hnow hshown => ?_
  -- The subject is the owner of the property, which is looked up when its turn comes.
  obtain ⟨owner?, -, hshown⟩ := bind_eq_ok_iff.1 hshown
  cases owner? with
  | none => exact pure_eq_ok_iff.1 hshown ▸ Stream.holds_empty
  | some owner =>
      obtain ⟨subject, hsubject, hshown⟩ := bind_eq_ok_iff.1 hshown
      obtain ⟨triples, htriples, hshown⟩ := bind_eq_ok_iff.1 hshown
      obtain rfl := pure_eq_ok_iff.1 hshown
      exact Stream.holds_ofTriples
        (formed_propertyTriples hnames hnow (hnow.subject hsubject) htriples)

/-! ### Place and versions -/

theorem forms_parent (hv : v.NamesBy names) (hs : parent v x = .ok s) : Forms names s := by
  obtain ⟨topic, htopic, hs⟩ := bind_eq_ok_iff.1 hs
  obtain ⟨container?, -, hs⟩ := bind_eq_ok_iff.1 hs
  cases container? with
  | none => exact pure_eq_ok_iff.1 hs ▸ Stream.holds_ofTriples (List.forall_mem_nil _)
  | some container =>
      obtain ⟨above, habove, hs⟩ := bind_eq_ok_iff.1 hs
      obtain rfl := pure_eq_ok_iff.1 hs
      refine Stream.holds_ofTriples fun t ht => ?_
      obtain rfl := List.mem_singleton.1 ht
      exact ⟨hv.subject htopic, rfl, hnames.stated (hv.subject habove)⟩

theorem forms_children (hv : v.NamesBy names) (hs : children v x = .ok s) : Forms names s := by
  obtain ⟨topic, htopic, hs⟩ := bind_eq_ok_iff.1 hs
  obtain ⟨nodes, -, hs⟩ := bind_eq_ok_iff.1 hs
  obtain rfl := pure_eq_ok_iff.1 hs
  refine Flow.holds_deferEach fun item now t hnow ht => ?_
  simp only [containment, bind_eq_ok_iff, pure_eq_ok_iff] at ht
  obtain ⟨_, _, _, _, child, hchild, rfl⟩ := ht
  exact ⟨hv.subject htopic, rfl, hnames.stated (hnow.subject hchild)⟩

theorem forms_versions (hv : v.NamesBy names) (hs : versions v x = .ok s) : Forms names s := by
  obtain ⟨topic, htopic, hs⟩ := bind_eq_ok_iff.1 hs
  obtain ⟨history?, -, hs⟩ := bind_eq_ok_iff.1 hs
  cases history? with
  | none => exact pure_eq_ok_iff.1 hs ▸ Stream.holds_ofTriples (List.forall_mem_nil _)
  | some history =>
      obtain ⟨parts, hparts, hs⟩ := bind_eq_ok_iff.1 hs
      obtain rfl := pure_eq_ok_iff.1 hs
      refine Stream.holds_ofTriples fun t ht => ?_
      obtain ⟨part, hpart, ht⟩ := List.mem_flatten.1 ht
      obtain ⟨version, -, hversion⟩ := (mem_iff_of_mapM_eq_ok hparts).1 hpart
      obtain ⟨frozen, hfrozen, hversion⟩ := bind_eq_ok_iff.1 hversion
      obtain rfl := pure_eq_ok_iff.1 hversion
      have hfrozen := hv _ _ hfrozen
      rcases List.mem_cons.1 ht with rfl | ht
      · exact ⟨hv.subject htopic, rfl, hnames.stated hfrozen⟩
      rcases List.mem_cons.1 ht with rfl | ht
      · exact ⟨hfrozen, rfl, Term.stated_literal _ _⟩
      obtain ⟨label, -, rfl⟩ := List.mem_map.1 ht
      exact ⟨hfrozen, rfl, Term.stated_literal _ _⟩

/-! ### Membership -/

theorem stated_memberTerms (hv : v.NamesBy names) {part : MemberPart} {terms : List Term}
    (h : memberTerms v x part = .ok terms) : ∀ term ∈ terms, term.Stated names := by
  cases part with
  | subject =>
      obtain ⟨term, hterm, rfl⟩ := memberTerms_subject_eq_ok_iff.1 h
      intro u hu
      exact List.mem_singleton.1 hu ▸ hnames.stated (hv.subject hterm)
  | valuesOf name =>
      obtain ⟨p?, -, h⟩ := bind_eq_ok_iff.1 h
      cases p? with
      | none => exact pure_eq_ok_iff.1 h ▸ List.forall_mem_nil _
      | some p => exact hv.stated_termsOf hnames h

theorem forms_memberTriples (hv : v.NamesBy names) (htopic : names topic) {relation : String}
    {part : MemberPart} {n : Node} (hs : memberTriples topic relation part n v = .ok s) :
    Forms names s := by
  obtain ⟨m, terms, -, hterms, rfl⟩ := memberTriples_eq_ok_iff.1 hs
  refine Stream.holds_ofTriples fun t ht => ?_
  obtain ⟨term, hterm, rfl⟩ := List.mem_map.1 ht
  exact ⟨htopic, rfl, stated_memberTerms hnames hv hterms term hterm⟩

theorem forms_containerTriples (htopic : names topic) {found : Resource × ContainerVariant}
    (hs : containerTriples topic found v = .ok s) : Forms names s := by
  obtain ⟨relation?, -, hs⟩ := bind_eq_ok_iff.1 hs
  cases relation? with
  | none => exact pure_eq_ok_iff.1 hs ▸ Stream.holds_empty
  | some relation =>
      obtain ⟨part?, -, hs⟩ := bind_eq_ok_iff.1 hs
      cases part? with
      | none => exact pure_eq_ok_iff.1 hs ▸ Stream.holds_empty
      | some part =>
          obtain ⟨nodes, -, hs⟩ := bind_eq_ok_iff.1 hs
          obtain rfl := pure_eq_ok_iff.1 hs
          exact .flatMap fun n _ now stated hnow hstated =>
            forms_memberTriples hnames hnow htopic hstated

theorem forms_membership (hv : v.NamesBy names) (hs : membership v x = .ok s) : Forms names s := by
  obtain ⟨topic, htopic, hs⟩ := bind_eq_ok_iff.1 hs
  obtain ⟨containers, -, hs⟩ := bind_eq_ok_iff.1 hs
  obtain rfl := pure_eq_ok_iff.1 hs
  exact .flatMap fun found _ now part hnow hpart =>
    forms_containerTriples hnames (hv.subject htopic) hpart

/-- A membership resource is named by a pointer, or by an IRI. -/
theorem stated_membershipResource (hv : v.NamesBy names) {target : Term}
    (h : membershipResource v x = .ok (some target)) : target.Stated names := by
  obtain ⟨p?, -, h⟩ := bind_eq_ok_iff.1 h
  cases p? with
  | none =>
      obtain ⟨term, hterm, heq⟩ := map_eq_ok_iff.1 h
      exact Option.some.inj heq ▸ hnames.stated (hv.subject hterm)
  | some p =>
      cases hvalue : p.value? with
      | none =>
          simp only [hvalue] at h
          cases h
      | some value =>
          simp only [hvalue] at h
          split at h
          · exact hv.stated_termOf? hnames h
          · obtain ⟨iri, -, rfl⟩ := Option.map_eq_some_iff.1 (pure_eq_ok_iff.1 h)
            exact hnames.stated (hnames.iri iri)

theorem stated_inverseOf (hv : v.NamesBy names) {k : ContainerVariant} {inverse : InverseRelation}
    (h : inverseOf v x k = .ok (some inverse)) : inverse.target.Stated names := by
  obtain ⟨relation?, -, h⟩ := bind_eq_ok_iff.1 h
  cases relation? with
  | none => cases h
  | some relation =>
      obtain ⟨target?, htarget, h⟩ := bind_eq_ok_iff.1 h
      cases target? with
      | none => cases h
      | some target =>
          obtain ⟨inserted?, -, h⟩ := bind_eq_ok_iff.1 h
          cases inserted? with
          | none => cases h
          | some inserted =>
              obtain rfl := Option.some.inj (pure_eq_ok_iff.1 h)
              exact stated_membershipResource hnames hv htarget

theorem stated_inverseRelation (hv : v.NamesBy names) {inverse : InverseRelation}
    (h : inverseRelation v x = .ok (some inverse)) : inverse.target.Stated names := by
  obtain ⟨container?, -, h⟩ := bind_eq_ok_iff.1 h
  cases container? with
  | none => cases h
  | some container =>
      obtain ⟨variant?, -, h⟩ := bind_eq_ok_iff.1 h
      split at h
      · exact stated_inverseOf hnames hv h
      · exact stated_inverseOf hnames hv h
      · cases h

/-- On its own side, a member is named by itself or by the values that are IRIs. -/
theorem names_ownTerms (htopic : names topic) {inserted : String} {terms : List Term}
    (h : ownTerms v x topic inserted = .ok terms) : ∀ term ∈ terms, names term := by
  obtain ⟨part?, -, h⟩ := bind_eq_ok_iff.1 h
  intro term hterm
  cases part? with
  | none =>
      rw [← pure_eq_ok_iff.1 h] at hterm
      cases hterm
  | some part =>
      cases part with
      | subject =>
          rw [← pure_eq_ok_iff.1 h] at hterm
          exact List.mem_singleton.1 hterm ▸ htopic
      | valuesOf name =>
          obtain ⟨values, -, h⟩ := bind_eq_ok_iff.1 h
          rw [← pure_eq_ok_iff.1 h, List.mem_filter, isOwnIri] at hterm
          cases term with
          | iri iri => exact hnames.iri iri
          | _ => cases hterm.2

theorem forms_isMemberOf (hv : v.NamesBy names) (hs : isMemberOf v x = .ok s) : Forms names s := by
  obtain ⟨topic, htopic, hs⟩ := bind_eq_ok_iff.1 hs
  obtain ⟨inverse?, hinverse, hs⟩ := bind_eq_ok_iff.1 hs
  cases inverse? with
  | none => exact pure_eq_ok_iff.1 hs ▸ Stream.holds_ofTriples (List.forall_mem_nil _)
  | some inverse =>
      obtain ⟨terms, hterms, hs⟩ := bind_eq_ok_iff.1 hs
      obtain rfl := pure_eq_ok_iff.1 hs
      refine Stream.holds_ofTriples fun t ht => ?_
      obtain ⟨term, hterm, rfl⟩ := List.mem_map.1 ht
      exact ⟨names_ownTerms hnames (hv.subject htopic) hterms term hterm, rfl,
        stated_inverseRelation hnames hv hinverse⟩

/-! ### Embedded nodes -/

theorem formsFlow_opening (hv : v.NamesBy names) {opening : Opening}
    (h : Opening.of v x = .ok opening) : FormsFlow names opening.own := by
  obtain ⟨ofTypes, ofProperties, listing, htypes, hproperties, -, rfl⟩ := opening_eq_ok_iff.1 h
  exact Flow.Holds.append (forms_types hnames hv htypes) (forms_properties hnames hv hproperties)

/-- A walk forms its triples if what comes after it does, whether it fails or not. -/
theorem formsFlow_walk (depth : Nat) (listing : List (Except Error Property))
    {next fallback : Onward} (hnext : ∀ visited, FormsFlow names (next visited))
    (hfallback : ∀ visited, FormsFlow names (fallback visited)) (visited : List String) :
    FormsFlow names (walk depth listing next fallback visited) := by
  induction depth generalizing listing next visited with
  | zero => exact hnext visited
  | succ depth ih =>
      induction listing generalizing visited with
      | nil => exact hnext visited
      | cons item listing ihlisting =>
          cases item with
          | error e => exact Flow.holds_emit_error e (hfallback visited)
          | ok p =>
              intro now hnow
              rcases hopened : openings now p.values visited with ⟨opened, visited'⟩
              cases opened with
              | error e => simpa only [hopened] using Flow.holds_emit_error e (hfallback visited')
              | ok opened =>
                  obtain ⟨reached, rfl, -⟩ := reaches_of_openings hopened
                  simp only [hopened]
                  -- The nodes that the property leads to, and then the rest of the listing.
                  clear hopened
                  induction reached generalizing visited' with
                  | nil => exact ihlisting visited'
                  | cons b reached ihreached =>
                      exact (formsFlow_opening hnames hnow b.opened).followedBy
                        (ih b.opening.listing ihreached visited') (hfallback visited')

theorem formsFlow_walkEach (depth : Nat) (listing : List (Except Error Property))
    (visited : List String) : FormsFlow names (walkEach depth listing visited) := by
  induction listing generalizing visited with
  | nil => trivial
  | cons item listing ih => exact formsFlow_walk hnames depth [item] ih ih visited

theorem forms_blankNodes (hs : blankNodes v x = .ok s) : Forms names s := by
  obtain ⟨topic, -, hs⟩ := bind_eq_ok_iff.1 hs
  obtain ⟨listing, -, hs⟩ := bind_eq_ok_iff.1 hs
  obtain rfl := pure_eq_ok_iff.1 hs
  exact formsFlow_walkEach hnames _ listing _

theorem formsFlow_walkFragments (depth : Nat) (nodes : List (Except Error Node))
    (visited : List String) : FormsFlow names (walkFragments depth nodes visited) := by
  induction nodes generalizing visited with
  | nil => trivial
  | cons item nodes ih =>
      cases item with
      | error e => exact Flow.holds_emit_error e (ih visited)
      | ok n =>
          intro now hnow
          cases hrole : Resource.ofNode now.reader n with
          | error e =>
              simp only [hrole]
              exact Flow.holds_emit_error e (ih visited)
          | ok fragment =>
              simp only [hrole]
              cases hopening : Opening.of now fragment with
              | error e => exact Flow.holds_emit_error e (ih _)
              | ok opening =>
                  exact (formsFlow_opening hnames hnow hopening).followedBy
                    (formsFlow_walk hnames depth opening.listing ih ih _) (ih _)

theorem forms_hashFragments (hs : hashFragments v x = .ok s) : Forms names s := by
  obtain ⟨topic, -, hs⟩ := bind_eq_ok_iff.1 hs
  obtain ⟨owner, -, hs⟩ := bind_eq_ok_iff.1 hs
  obtain ⟨nodes, -, hs⟩ := bind_eq_ok_iff.1 hs
  obtain rfl := pure_eq_ok_iff.1 hs
  exact formsFlow_walkFragments hnames _ nodes _

/-! ### Namespaces and fixity -/

theorem forms_namespaces (hs : namespaces v x = .ok s) : Forms names s := by
  obtain ⟨topic, -, hs⟩ := bind_eq_ok_iff.1 hs
  obtain ⟨entries, -, hs⟩ := bind_eq_ok_iff.1 hs
  obtain rfl := pure_eq_ok_iff.1 hs
  refine Stream.Holds.foldl_declare (Stream.holds_ofTriples fun t ht => ?_) entries
  obtain ⟨entry, -, ht⟩ := List.mem_flatMap.1 ht
  have hiri := hnames.iri entry.2
  simp only [vocabularyTriples, List.mem_cons, List.not_mem_nil, or_false] at ht
  rcases ht with rfl | rfl | rfl
  · exact ⟨hiri, rfl, hnames.stated (hnames.iri _)⟩
  · exact ⟨hiri, rfl, Term.stated_literal _ _⟩
  · exact ⟨hiri, rfl, Term.stated_literal _ _⟩

theorem formed_fixityTriples (htopic : names topic) {node : Term} (hnode : names node)
    (result : FixityResult) : ∀ t ∈ fixityTriples topic node result, t.Formed names := by
  have hiri (iri : String) := hnames.stated (hnames.iri iri)
  intro t ht
  simp only [fixityTriples, List.mem_append, List.mem_cons, List.mem_map, List.not_mem_nil,
    or_false] at ht
  rcases ht with ((rfl | rfl) | ⟨state, -, rfl⟩) | rfl | rfl | rfl | rfl | rfl
  · exact ⟨htopic, rfl, hnames.stated hnode⟩
  · exact ⟨hnode, rfl, hiri _⟩
  · exact ⟨hnode, rfl, Term.stated_literal _ _⟩
  · exact ⟨hnode, rfl, hiri _⟩
  · refine ⟨hnode, rfl, ?_⟩
    unfold sizeLiteral
    split <;> exact Term.stated_literal _ _
  · exact ⟨hnode, rfl, hiri _⟩
  · exact ⟨hnames.iri _, rfl, hiri _⟩
  · exact ⟨hnames.iri _, rfl, Term.stated_literal _ _⟩

theorem forms_fixity (hv : v.NamesBy names) {now : Instant} {algorithm : DigestAlgorithm}
    (hs : fixity v now x algorithm = .ok s) : Forms names s := by
  simp only [fixity, bind_eq_ok_iff] at hs
  obtain ⟨binary, -, results, -, digest, -, size, -, hs⟩ := hs
  obtain ⟨topic, htopic, hs⟩ := bind_eq_ok_iff.1 hs
  cases hiri : topic.iri? with
  | none =>
      simp only [hiri] at hs
      exact pure_eq_ok_iff.1 hs ▸ Stream.holds_ofTriples (List.forall_mem_nil _)
  | some iri =>
      simp only [hiri] at hs
      obtain rfl := pure_eq_ok_iff.1 hs
      refine Stream.holds_ofTriples fun t ht => ?_
      obtain ⟨⟨result, number⟩, -, ht⟩ := List.mem_flatMap.1 ht
      exact formed_fixityTriples hnames (hv.subject htopic) (hnames.iri _) _ t ht

/-! ### Descriptions -/

/-- Every aspect forms its triples. -/
theorem forms_generate (hv : v.NamesBy names) (a : Aspect) (hs : generate a v x = .ok s) :
    Forms names s := by
  cases a with
  | model => exact forms_model hnames hv hs
  | types => exact forms_types hnames hv hs
  | properties => exact forms_properties hnames hv hs
  | parent => exact forms_parent hnames hv hs
  | children => exact forms_children hnames hv hs
  | membership => exact forms_membership hnames hv hs
  | isMemberOf => exact forms_isMemberOf hnames hv hs
  | references => exact forms_references hnames hs
  | versions => exact forms_versions hnames hv hs
  | hash => exact forms_hashFragments hnames hs
  | blankNodes => exact forms_blankNodes hnames hs
  | namespaces => exact forms_namespaces hnames hs

theorem forms_part {a : Aspect} {part : Stream View}
    (h : Description.part v x topic a = .ok part) : Forms names part := by
  rw [Description.part] at h
  split at h
  · exact forms_namespaces hnames h
  · obtain rfl := pure_eq_ok_iff.1 h
    exact .lazy fun now said hnow hsaid => forms_generate hnames hnow a hsaid

theorem forms_describe {selection : Selection} (hs : describe v x selection = .ok s) :
    Forms names s := by
  obtain ⟨topic, ps, -, hps, rfl⟩ := describe_eq_ok_iff.1 hs
  have hwhole : Forms names (ps.foldl Stream.concat (Stream.ofTriples topic [])) := by
    refine .foldl_concat (Stream.holds_ofTriples (List.forall_mem_nil _)) fun p hp => ?_
    obtain ⟨a, -, hpart⟩ := (mem_iff_of_mapM_eq_ok (mapM_eq_ok_iff.2 hps)).1 hp
    exact forms_part hnames hpart
  split
  · exact hwhole
  · exact Flow.Holds.filter hwhole _ _

end Generators

/-- The streams that describe a resource: its descriptions, by whatever selection, and the reports
on its stored copies. -/
inductive Describes (v : View) (x : Resource) : Stream View → Prop
  | description (selection : Selection) {s : Stream View}
      (hs : describe v x selection = .ok s) : Describes v x s
  | fixity (now : Instant) (algorithm : DigestAlgorithm) {s : Stream View}
      (hs : fixity v now x algorithm = .ok s) : Describes v x s

theorem Describes.forms (hnames : Term.IsNaming names) (hv : v.NamesBy names)
    (hs : Describes v x s) : Forms names s := by
  cases hs with
  | description selection hs => exact forms_describe hnames hs
  | fixity now algorithm hs => exact forms_fixity hnames hv hs

/-- **Descriptions and fixity reports are well-formed**: where nodes are named by IRIs and blank
nodes, every triple is a statement of RDF, and where they are named by the IRIs of a mapping, there
is no blank node in it. -/
theorem Describes.wellFormed (hs : Describes v x s) :
    (v.NamesNodes → s.YieldsOnly View.NamesNodes Triple.WellFormed) ∧
      ∀ m r, v = .ofMap m r → s.YieldsOnly (fun now => ∃ m r, now = .ofMap m r) fun t =>
        t.WellFormed ∧ t.IsGround := by
  constructor
  · intro hv
    have hnames := Term.isNaming_isLiteral
    exact (hs.forms hnames hv).yieldsOnly.imp (fun _ => id) fun _ ht => ht.isWellFormed hnames
  · rintro m r rfl
    have hnames := Term.isNaming_isIri
    refine (hs.forms hnames (View.namesBy_ofMap m r)).yieldsOnly.imp ?_ fun t ht =>
      ⟨ht.isWellFormed hnames, ht.isGround⟩
    rintro now ⟨m, r, rfl⟩
    exact View.namesBy_ofMap m r

/-- A container with a property in a language: its values are text, a number that is written as
text, and the place of the container. -/
def labelledView : View :=
  .ofMap ⟨"http://localhost"⟩ ((Access.direct 0).reader ((Host.start "root").run
    [.opening "default", .mutate 0 ⟨toString, .epoch⟩ (.createContainer "/a"),
      .mutate 0 ⟨toString, .epoch⟩ (.putProperty (.many "/a" "rdfs:label@en"
        [.string "a", .string ("7" ++ Value.typedMark ++ Vocab.Xsd.integer), .path "/a"]))]))

/-- Only the text takes the language, and the description is well-formed. -/
theorem wellFormed_labelled :
    let x : Resource := ⟨⟨"/a", "0", "nt:folder", [Vocab.Name.fedoraContainer]⟩, .container,
      "default"⟩
    (do
      let s ← describe labelledView x .everything
      let triples ← s.collect labelledView
      pure ((triples.filter fun t => t.predicate == .iri (Vocab.Rdfs.base ++ "label")).map
        Triple.object)) =
      Except.ok (ε := Error)
        [.langString "a" "en", .typed "7" Vocab.Xsd.integer, .iri "http://localhost/a"] ∧
    ∃ s, describe labelledView x .everything = .ok s ∧
      s.YieldsOnly View.NamesNodes Triple.WellFormed ∧
      s.YieldsOnly (fun now => ∃ m r, now = .ofMap m r) fun t => t.WellFormed ∧ t.IsGround := by
  intro x
  refine ⟨by decide +kernel, ?_⟩
  have hok : (describe labelledView x .everything).isOk = true := by decide +kernel
  cases hs : describe labelledView x .everything with
  | error e => rw [hs] at hok; cases hok
  | ok s =>
      have hdescribes : Describes labelledView x s := .description .everything hs
      exact ⟨s, rfl, hdescribes.wellFormed.1 (View.namesNodes_ofMap _ _),
        hdescribes.wellFormed.2 _ _ rfl⟩

end Description

end LinkedStore
