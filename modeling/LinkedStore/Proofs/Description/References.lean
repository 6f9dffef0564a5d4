import LinkedStore.Proofs.Description.Halves
import LinkedStore.Proofs.Description.Publication
import LinkedStore.Proofs.Host.Identified
import LinkedStore.Proofs.Store.Snapshot

/-!
# References in both directions

What others state about a resource is found backwards: the store is searched for the properties
with a value that bears the identifier of a node of the resource, and each of them is stated again
as its owner would state it, with those values alone.  So the references to a resource mirror what
their owners publish, except that an owner hides some properties.

## Main definitions

* `Workspace.Refers` : a stored property refers to a node.
* `Resource.Whole` : a resource that lacks none of its nodes.
* `Description.StatesAbout` : a value of a property states a triple about a resource.
* `Description.OwnerStates` : the triple that a property that refers to a resource gives rise to.
* `Description.MirrorsReferences` : the references to a resource mirror what others publish.

## Main statements

* `Description.mem_references_iff` : the references to a resource are what is stated about it.
* `Description.mem_references_iff_refers` : they are the triples of the stored properties that refer
  to it.
* `Description.references_mirror` : they mirror what others publish, in every state of a host.
-/

namespace LinkedStore

/-! ### Properties that refer to a node -/

namespace Workspace

variable {w : Workspace} {p : Property} {n : Node} {path : String}

/-- A stored property refers to a node by one of its values. -/
def Refers (w : Workspace) (p : Property) (n : Node) : Prop :=
  w.property? p.owner p.name = some p ∧ ∃ value ∈ p.values, value.RefersTo n.identifier

/-- The references to a stored node are the stored properties that refer to it. -/
theorem Filed.mem_references_iff (hw : w.Filed) (hn : w.node? path = some n) :
    p ∈ w.references path .all ↔ w.Refers p n := by
  constructor
  · intro hp
    obtain ⟨n', owner, name, hn', hp, value, hvalue, hrefers⟩ :=
      exists_property?_of_mem_references hp
    obtain rfl := Option.some.inj (hn.symm.trans hn')
    obtain ⟨rfl, rfl, -⟩ := hw.property hp
    exact ⟨hp, value, hvalue, Value.refersTo_iff.2 hrefers⟩
  · rintro ⟨hp, value, hvalue, hrefers⟩
    obtain ⟨hkind, htext⟩ := Value.refersTo_iff.1 hrefers
    exact mem_references hp hn hvalue hkind htext

end Workspace

/-! ### Whole resources -/

namespace Resource

variable {a : Reader} {x half : Resource} {halves : List Resource}

/-- A resource that lacks none of its nodes: a container, a placeholder, or either half of a binary,
with the content first. -/
inductive Whole (a : Reader) : Resource → List Resource → Prop
  | single {x : Resource} (hfound : at? a x.path = .ok (some x))
      (hkind : x.kind = .container ∨ x.kind = .placeholder) : Whole a x [x]
  | description {x content : Resource} (h : Halves a x content) : Whole a x [content, x]
  | content {x content : Resource} (h : Halves a x content) : Whole a content [content, x]

theorem halves_eq_singleton (hkind : x.kind = .container ∨ x.kind = .placeholder) :
    x.halves a = .ok [x] := by
  rw [halves, if_neg]
  · rfl
  · rcases hkind with hkind | hkind <;> simp [hkind]

namespace Whole

theorem halves_eq (h : Whole a x halves) : x.halves a = .ok halves := by
  cases h with
  | single _ hkind => exact halves_eq_singleton hkind
  | description h => exact h.halves_description
  | content h => exact h.halves_content

theorem mem (h : Whole a x halves) : x ∈ halves := by
  cases h <;> simp

theorem found (h : Whole a x halves) (hhalf : half ∈ halves) :
    at? a half.path = .ok (some half) := by
  cases h with
  | single hfound _ => exact List.mem_singleton.1 hhalf ▸ hfound
  | description h | content h =>
      rcases List.mem_pair.1 hhalf with rfl | rfl
      · exact h.foundContent
      · exact h.foundDescription

/-- All nodes of a resource have one term. -/
theorem subject_eq {v : View} (h : Whole v.reader x halves) (hhalf : half ∈ halves) :
    v.subject half = v.subject x := by
  cases h with
  | single _ _ => rw [List.mem_singleton.1 hhalf]
  | description h =>
      rcases List.mem_pair.1 hhalf with rfl | rfl
      · exact h.subject_eq.symm
      · rfl
  | content h =>
      rcases List.mem_pair.1 hhalf with rfl | rfl
      · rfl
      · exact h.subject_eq

end Whole

/-- A node that is found by its identifier is the one that bears it. -/
theorem eq_of_byIdentifier? {h : Host} {access : Access} {v : View}
    (hv : v.reader = access.reader h) (hw : (h.current access.number).Identified)
    (hx : x.FoundIn (h.current access.number) v.reader) {found : Option Resource}
    (hfound : byIdentifier? v.reader x.node.identifier = .ok found) : found = some x := by
  obtain ⟨n?, hn, hrole⟩ := bind_eq_ok_iff.1 hfound
  have hstored := Access.byIdentifier?_eq (hv ▸ hn)
  rw [hw.byIdentifier? hx.stored] at hstored
  obtain rfl := hstored
  obtain ⟨y, hy, rfl⟩ := map_eq_ok_iff.1 hrole
  exact congrArg some (Except.ok.inj (hy.symm.trans hx.role))

end Resource

namespace Description

variable {v : View} {x half owner : Resource} {halves : List Resource} {p : Property}
  {value : Value} {subject topic : Term} {t : Triple} {identifier : String}

/-! ### What is stated about a resource -/

theorem mem_pointingAt_iff :
    value ∈ (pointingAt identifier p).values ↔ value.RefersTo identifier ∧ value ∈ p.values := by
  rw [pointingAt, List.mem_filter, Bool.and_eq_true, beq_iff_eq, Value.refersTo_iff, and_comm]

/-- The values that refer to a node state what they state in the whole property. -/
theorem states_pointingAt_iff :
    States v subject (pointingAt identifier p) value t ↔
      value.RefersTo identifier ∧ States v subject p value t := by
  rw [States, mem_pointingAt_iff, and_assoc]
  rfl

/-- What the owner of a property states about a node. -/
theorem emits_referenceTriples_iff {s : Stream View}
    (hs : referenceTriples identifier p v = .ok s) :
    s.Emits v t ↔ ∃ owner subject value, Resource.at? v.reader p.owner = .ok (some owner) ∧
      v.subject owner = .ok subject ∧ value.RefersTo identifier ∧
      States v subject p value t := by
  obtain ⟨owner?, howner, hs⟩ := bind_eq_ok_iff.1 hs
  cases owner? with
  | none =>
      obtain rfl := Except.ok.inj hs
      simp [howner]
  | some owner =>
      obtain ⟨subject, hsubject, hs⟩ := bind_eq_ok_iff.1 hs
      obtain ⟨triples, htriples, hs⟩ := bind_eq_ok_iff.1 hs
      obtain rfl := Except.ok.inj hs
      rw [Stream.emits_ofTriples, mem_propertyTriples_iff htriples]
      simp [howner, hsubject, states_pointingAt_iff]

/-- A value of a property states a triple about a resource: it refers to a node of the resource, the
property is listed as a reference to that node, and it states the triple of its owner. -/
def StatesAbout (v : View) (x : Resource) (p : Property) (value : Value) (t : Triple) : Prop :=
  ∃ halves half listing owner subject, x.halves v.reader = .ok halves ∧ half ∈ halves ∧
    v.reader.references half.path .all = .ok listing ∧ .ok p ∈ listing ∧
    Resource.at? v.reader p.owner = .ok (some owner) ∧ v.subject owner = .ok subject ∧
    value.RefersTo half.node.identifier ∧ States v subject p value t

/-- The references to every node of a resource are listed, and each is stated, if the references to
the resource can be drained. -/
theorem exists_references_of_collect {triples : List Triple}
    (h : (references v x >>= fun s => s.collect v) = .ok triples)
    (hhalves : x.halves v.reader = .ok halves) (hhalf : half ∈ halves) :
    ∃ listing, v.reader.references half.path .all = .ok listing ∧ ∀ p, .ok p ∈ listing →
      ∃ s, referenceTriples half.node.identifier p v = .ok s ∧
        ∀ t, s.Emits v t → t ∈ triples := by
  obtain ⟨s, hs, h⟩ := bind_eq_ok_iff.1 h
  obtain ⟨topic, -, hs⟩ := bind_eq_ok_iff.1 hs
  obtain ⟨halves', hhalves', hs⟩ := bind_eq_ok_iff.1 hs
  obtain rfl := Except.ok.inj (hhalves.symm.trans hhalves')
  obtain rfl := Except.ok.inj hs
  obtain ⟨s, part, hs, hpart⟩ := Stream.exists_collect_of_mem h (List.mem_map_of_mem hhalf)
  have hnode := hs
  obtain ⟨listing, hlisting, hs⟩ := bind_eq_ok_iff.1 hs
  obtain rfl := Except.ok.inj hs
  refine ⟨listing, hlisting, fun p hp => ?_⟩
  obtain ⟨s, stated, hs, hstated⟩ := Stream.exists_collect_of_mem hpart hp
  refine ⟨s, hs, fun t ht => ?_⟩
  have ht := (Stream.mem_collect_flatMap_iff hpart).2
    ⟨p, hp, s, stated, hs, hstated, (Stream.emits_iff_mem_collect hstated).1 ht⟩
  exact (Stream.mem_collect_flatMap_iff h).2
    ⟨half, List.mem_map_of_mem hhalf, _, part, hnode, hpart, ht⟩

/-- **The references to a resource** are what values of properties state about it. -/
theorem mem_references_iff {triples : List Triple}
    (h : (references v x >>= fun s => s.collect v) = .ok triples) :
    t ∈ triples ↔ ∃ p value, StatesAbout v x p value t := by
  constructor
  · intro ht
    obtain ⟨s, hs, h⟩ := bind_eq_ok_iff.1 h
    obtain ⟨topic, -, hs⟩ := bind_eq_ok_iff.1 hs
    obtain ⟨halves, hhalves, hs⟩ := bind_eq_ok_iff.1 hs
    obtain rfl := Except.ok.inj hs
    have hemits := (Stream.emits_iff_mem_collect h).2 ht
    obtain ⟨half, hmem, s, hs, hemits⟩ := Stream.exists_of_emits_flatMap hemits
    have hhalf := (List.mem_map_of_injective fun _ _ => Except.ok.inj).1 hmem
    obtain ⟨listing, hlisting, hs⟩ := bind_eq_ok_iff.1 hs
    obtain rfl := Except.ok.inj hs
    obtain ⟨p, hp, s, hs, hemits⟩ := Stream.exists_of_emits_flatMap hemits
    obtain ⟨owner, subject, value, howner, hsubject, hrefers, hstates⟩ :=
      (emits_referenceTriples_iff hs).1 hemits
    exact ⟨p, value, halves, half, listing, owner, subject, hhalves, hhalf, hlisting, hp, howner,
      hsubject, hrefers, hstates⟩
  · rintro ⟨p, value, halves, half, listing, owner, subject, hhalves, hhalf, hlisting, hp, howner,
      hsubject, hrefers, hstates⟩
    obtain ⟨listing', hlisting', hstated⟩ := exists_references_of_collect h hhalves hhalf
    obtain rfl := Except.ok.inj (hlisting.symm.trans hlisting')
    obtain ⟨s, hs, hmem⟩ := hstated p hp
    exact hmem t ((emits_referenceTriples_iff hs).2
      ⟨owner, subject, value, howner, hsubject, hrefers, hstates⟩)

/-! ### The triple of a property that refers to a resource -/

/-- What the owner of a property states with it about a resource: its own term, the public name of
the property, and the term of the resource. -/
def OwnerStates (v : View) (p : Property) (topic : Term) (t : Triple) : Prop :=
  ∃ owner subject iri, Resource.at? v.reader p.owner = .ok (some owner) ∧
    v.subject owner = .ok subject ∧ Naming.iri v.reader p.publicName = .ok iri ∧
    t = ⟨subject, .iri iri, topic⟩

/-- The owner of a property states one triple with it. -/
theorem OwnerStates.unique {t' : Triple} (h : OwnerStates v p topic t)
    (h' : OwnerStates v p topic t') : t = t' := by
  obtain ⟨owner, subject, iri, howner, hsubject, hiri, rfl⟩ := h
  obtain ⟨owner', subject', iri', howner', hsubject', hiri', rfl⟩ := h'
  obtain rfl := Option.some.inj (Except.ok.inj (howner.symm.trans howner'))
  obtain rfl := Except.ok.inj (hsubject.symm.trans hsubject')
  obtain rfl := Except.ok.inj (hiri.symm.trans hiri')
  rfl

/-- A value that refers to an identifier has the term of the node that is found by it. -/
theorem exists_byIdentifier?_of_termOf? (hrefers : value.RefersTo identifier)
    {term? : Option Term} (hterm : v.termOf? value = .ok term?) :
    ∃ found, Resource.byIdentifier? v.reader identifier = .ok found ∧
      ∀ y, found = some y → some <$> v.subject y = .ok term? := by
  rcases hrefers with rfl | rfl
  all_goals
    obtain ⟨found, hfound, hterm⟩ := bind_eq_ok_iff.1 hterm
    refine ⟨found, hfound, ?_⟩
    rintro y rfl
    exact hterm

/-! ### The two directions -/

section Run

variable {h : Host} {a : Access} {triples : List Triple}

/-- A view of a state in which every node is found by its identifier. -/
structure Sees (v : View) (h : Host) (a : Access) : Prop where
  reader : v.reader = a.reader h
  filed : (h.current a.number).Filed
  identified : (h.current a.number).Identified
  names : v.NamesNodes

theorem Sees.readsFrom (hv : Sees v h a) : v.reader.ReadsFrom (h.current a.number) :=
  hv.reader ▸ a.readsFrom h

theorem Sees.foundIn (hv : Sees v h a) (hx : x.Whole v.reader halves) (hhalf : half ∈ halves) :
    half.FoundIn (h.current a.number) v.reader :=
  Resource.foundIn_of_at? hv.readsFrom hv.filed (hx.found hhalf)

/-- A value that refers to a node of a resource has the term of the resource. -/
theorem eq_subject_of_refersTo (hv : Sees v h a) (hx : x.Whole v.reader halves)
    (htopic : v.subject x = .ok topic) (hhalf : half ∈ halves)
    (hrefers : value.RefersTo half.node.identifier) {term? : Option Term}
    (hterm : v.termOf? value = .ok term?) : term? = some topic := by
  obtain ⟨found, hfound, hterm⟩ := exists_byIdentifier?_of_termOf? hrefers hterm
  have hself := Resource.eq_of_byIdentifier? hv.reader hv.identified (hv.foundIn hx hhalf) hfound
  obtain ⟨term, hsubject, rfl⟩ := map_eq_ok_iff.1 (hterm half hself)
  rw [hx.subject_eq hhalf, htopic] at hsubject
  rw [Except.ok.inj hsubject]

theorem StatesAbout.refersTo (hx : x.Whole v.reader halves) (hstates : StatesAbout v x p value t) :
    ∃ half ∈ halves, value.RefersTo half.node.identifier := by
  obtain ⟨halves', half, -, -, -, hhalves, hhalf, -, -, -, -, hrefers, -⟩ := hstates
  obtain rfl := Except.ok.inj (hx.halves_eq.symm.trans hhalves)
  exact ⟨half, hhalf, hrefers⟩

/-- What is stated about a resource is stated by a stored property that refers to it, and is the
triple of the owner, the public name and the resource. -/
theorem StatesAbout.refers (hv : Sees v h a) (hx : x.Whole v.reader halves)
    (htopic : v.subject x = .ok topic) (hstates : StatesAbout v x p value t) :
    ∃ half ∈ halves, (h.current a.number).Refers p half.node ∧ OwnerStates v p topic t := by
  obtain ⟨halves', half, listing, owner, subject, hhalves, hhalf, hlisting, hp, howner, hsubject,
    hrefers, -, iri, term, hiri, hterm, rfl⟩ := hstates
  obtain rfl := Except.ok.inj (hx.halves_eq.symm.trans hhalves)
  have hlisted := (hv.filed.mem_references_iff (hv.foundIn hx hhalf).stored).1
    (Access.mem_references (hv.reader ▸ hlisting) hp)
  obtain rfl := Option.some.inj (eq_subject_of_refersTo hv hx htopic hhalf hrefers hterm)
  refine ⟨half, hhalf, hlisted, owner, subject, iri, howner, hsubject, hiri, ?_⟩
  rw [hv.names.tagged_subject htopic]

/-- A stored property that refers to a resource is stated about it, as far as it is listed. -/
theorem exists_referenceTriples (hv : Sees v h a) (hx : x.Whole v.reader halves)
    (hdrained : (references v x >>= fun s => s.collect v) = .ok triples) (hhalf : half ∈ halves)
    (hp : (h.current a.number).Refers p half.node) :
    ∃ listing s, v.reader.references half.path .all = .ok listing ∧ .ok p ∈ listing ∧
      referenceTriples half.node.identifier p v = .ok s := by
  obtain ⟨listing, hlisting, hstated⟩ := exists_references_of_collect hdrained hx.halves_eq hhalf
  have hstored := (hv.foundIn hx hhalf).stored
  have hlisted := hv.readsFrom.references hlisting ((hv.filed.mem_references_iff hstored).2 hp)
  obtain ⟨s, hs, -⟩ := hstated p hlisted
  exact ⟨listing, s, hlisting, hlisted, hs⟩

/-- A stored property that refers to a resource states a triple about it, if its owner is found. -/
theorem exists_statesAbout (hv : Sees v h a) (hx : x.Whole v.reader halves)
    (htopic : v.subject x = .ok topic)
    (hdrained : (references v x >>= fun s => s.collect v) = .ok triples) (hhalf : half ∈ halves)
    (hp : (h.current a.number).Refers p half.node)
    (howner : Resource.at? v.reader p.owner = .ok (some owner)) :
    ∃ value t, StatesAbout v x p value t ∧ OwnerStates v p topic t := by
  obtain ⟨listing, s, hlisting, hlisted, hs⟩ := exists_referenceTriples hv hx hdrained hhalf hp
  obtain ⟨owner?, howner', hs⟩ := bind_eq_ok_iff.1 hs
  obtain rfl := Except.ok.inj (howner.symm.trans howner')
  obtain ⟨subject, hsubject, hs⟩ := bind_eq_ok_iff.1 hs
  obtain ⟨stated, hproperty, -⟩ := bind_eq_ok_iff.1 hs
  obtain ⟨iri, hiri, hproperty⟩ := bind_eq_ok_iff.1 hproperty
  obtain ⟨terms, hterms, -⟩ := bind_eq_ok_iff.1 hproperty
  -- The values that refer to the node have been given terms, so that the one at hand has one.
  obtain ⟨-, value, hvalue, hrefers⟩ := hp
  obtain ⟨term?, hterm⟩ :=
    exists_termOf?_of_termsOf hterms (mem_pointingAt_iff.2 ⟨hrefers, hvalue⟩)
  obtain rfl := eq_subject_of_refersTo hv hx htopic hhalf hrefers hterm
  refine ⟨value, _, ⟨halves, half, listing, owner, subject, hx.halves_eq, hhalf, hlisting, hlisted,
    howner, hsubject, hrefers, hvalue, iri, topic, hiri, hterm, rfl⟩,
    owner, subject, iri, howner, hsubject, hiri, ?_⟩
  rw [hv.names.tagged_subject htopic]

/-- **The references to a resource** are the triples of the stored properties that refer to it. -/
theorem mem_references_iff_refers (hv : Sees v h a) (hx : x.Whole v.reader halves)
    (htopic : v.subject x = .ok topic)
    (hdrained : (references v x >>= fun s => s.collect v) = .ok triples) :
    t ∈ triples ↔ ∃ p, ∃ half ∈ halves, (h.current a.number).Refers p half.node ∧
      OwnerStates v p topic t := by
  rw [mem_references_iff hdrained]
  constructor
  · rintro ⟨p, value, hstates⟩
    exact ⟨p, hstates.refers hv hx htopic⟩
  · rintro ⟨p, half, hhalf, hp, howned⟩
    obtain ⟨owner, -, -, howner, -⟩ := id howned
    obtain ⟨value, t', hstates, howned'⟩ := exists_statesAbout hv hx htopic hdrained hhalf hp howner
    exact ⟨p, value, howned.unique howned' ▸ hstates⟩

/-- Where no node is hidden, the owner of a property that refers to a resource is found. -/
theorem exists_owner (hv : Sees v h a) (hshown : a.HidesNothing) (hx : x.Whole v.reader halves)
    (hdrained : (references v x >>= fun s => s.collect v) = .ok triples) (hhalf : half ∈ halves)
    (hp : (h.current a.number).Refers p half.node) :
    ∃ owner, Resource.at? v.reader p.owner = .ok (some owner) := by
  obtain ⟨listing, s, -, -, hs⟩ := exists_referenceTriples hv hx hdrained hhalf hp
  -- Since the stream of the property has been built, its owner has been asked for, and is stored.
  obtain ⟨owner?, howner, -⟩ := bind_eq_ok_iff.1 hs
  obtain ⟨n?, hn, hrole⟩ := bind_eq_ok_iff.1 howner
  obtain ⟨-, -, n, hstored⟩ := hv.filed.property hp.1
  rw [hshown.node?_eq (hv.reader ▸ hn)] at hstored
  obtain rfl := hstored
  obtain ⟨owner, -, rfl⟩ := map_eq_ok_iff.1 hrole
  exact ⟨owner, howner⟩

/-- By a value that refers to a resource, a visible property states about it what the owner
publishes. -/
theorem statesAbout_iff_publishes (hv : Sees v h a) (hx : x.Whole v.reader halves)
    (hdrained : (references v x >>= fun s => s.collect v) = .ok triples) {nodes : List Resource}
    (howner : owner.Whole v.reader nodes) {own : List Triple}
    (hown : (properties v owner >>= fun s => s.collect v) = .ok own)
    (hp : (h.current a.number).property? owner.path p.name = some p)
    (hvisible : p.isHidden owner.node.isFrozen = false) (hhalf : half ∈ halves)
    (hrefers : value.RefersTo half.node.identifier) :
    StatesAbout v x p value t ↔ Publishes v owner p value t := by
  obtain ⟨hpath, -, -⟩ := hv.filed.property hp
  have hat : Resource.at? v.reader p.owner = .ok (some owner) := hpath ▸ howner.found howner.mem
  constructor
  · rintro ⟨-, -, -, owner', subject, -, -, -, -, howner', hsubject, -, hstates⟩
    obtain rfl := Option.some.inj (Except.ok.inj (hat.symm.trans howner'))
    obtain ⟨listing, hlisting⟩ := exists_listing_of_collect hown howner.halves_eq howner.mem
    refine ⟨subject, nodes, owner, listing, hsubject, howner.halves_eq, howner.mem, hlisting, ?_,
      hvisible, hstates⟩
    have hlisting : (a.reader h).properties owner.path = .ok listing := hv.reader ▸ hlisting
    exact (Access.mem_properties_iff hlisting).2 (Workspace.mem_propertiesOf.2 ⟨p.name, hp⟩)
  · rintro ⟨subject, -, -, -, hsubject, -, -, -, -, -, hstates⟩
    have hp : (h.current a.number).Refers p half.node :=
      ⟨hpath ▸ hp, value, hstates.1, hrefers⟩
    obtain ⟨listing, s, hlisting, hlisted, -⟩ := exists_referenceTriples hv hx hdrained hhalf hp
    exact ⟨halves, half, listing, owner, subject, hx.halves_eq, hhalf, hlisting, hlisted, hat,
      hsubject, hrefers, hstates⟩

end Run

/-! ### In every state of a host -/

/-- How the references to a resource, drained to `triples`, mirror what the owners of properties
publish, after a run from a repository. -/
structure MirrorsReferences (r : Repository) (calls : List Host.Call) (v : View) (a : Access)
    (x : Resource) (halves : List Resource) (topic : Term) (triples : List Triple) : Prop where
  /-- They are the triples of the stored properties that refer to a node of the resource. -/
  exact : ∀ t, t ∈ triples ↔ ∃ p, ∃ half ∈ halves,
    (((Host.mk r []).run calls).current a.number).Refers p half.node ∧ OwnerStates v p topic t
  /-- Every such property has its triple among them, where no node is hidden. -/
  complete : a.HidesNothing → ∀ half ∈ halves, ∀ p,
    (((Host.mk r []).run calls).current a.number).Refers p half.node →
      ∃ t ∈ triples, OwnerStates v p topic t
  /-- They are what single values state about the resource. -/
  stated : ∀ t, t ∈ triples ↔ ∃ p value, StatesAbout v x p value t
  /-- A visible property states about the resource what its owner publishes by the values that refer
  to a node of the resource, and the owner emits what it publishes. -/
  mirrored : ∀ owner nodes own, owner.Whole v.reader nodes →
    (properties v owner >>= fun s => s.collect v) = .ok own →
    (∀ t, t ∈ own ↔ ∃ p value, Publishes v owner p value t) ∧
    ∀ p, (((Host.mk r []).run calls).current a.number).property? owner.path p.name = some p →
      p.isHidden owner.node.isFrozen = false → ∀ t,
      (∃ value, StatesAbout v x p value t) ↔ ∃ half ∈ halves, ∃ value,
        value.RefersTo half.node.identifier ∧ Publishes v owner p value t
  /-- The values that refer to a node are those that lead to it other than by its path, if every
  identifier stands for one node. -/
  reference : Host.Orderly r calls → ∀ half ∈ halves, ∀ value : Value,
    (∀ path, value ≠ .path path) → v.target? value = .ok (some half) →
      value.RefersTo half.node.identifier

/-- **References mirror what others publish**, in every state of a host, through whatever the state
is read, if every identifier that was drawn was new. -/
theorem references_mirror {r : Repository} (hr : r.IsNew) {calls : List Host.Call}
    (hfresh : Host.Fresh r calls) (a : Access)
    (hv : v.reader = a.reader ((Host.mk r []).run calls)) (hnames : v.NamesNodes)
    (hx : x.Whole v.reader halves) (htopic : v.subject x = .ok topic) {triples : List Triple}
    (hdrained : (references v x >>= fun s => s.collect v) = .ok triples) :
    MirrorsReferences r calls v a x halves topic triples := by
  have hsees : Sees v ((Host.mk r []).run calls) a :=
    ⟨hv, Host.filed_current hr calls a.number, Host.identified_current hr hfresh a.number, hnames⟩
  constructor
  case exact => exact fun t => mem_references_iff_refers hsees hx htopic hdrained
  case complete =>
    intro hshown half hhalf p hp
    obtain ⟨owner, howner⟩ := exists_owner hsees hshown hx hdrained hhalf hp
    obtain ⟨value, t, hstates, howned⟩ :=
      exists_statesAbout hsees hx htopic hdrained hhalf hp howner
    exact ⟨t, (mem_references_iff hdrained).2 ⟨p, value, hstates⟩, howned⟩
  case stated => exact fun t => mem_references_iff hdrained
  case mirrored =>
    intro owner nodes own howner hown
    refine ⟨fun t => mem_properties_iff hown, fun p hp hvisible t => ?_⟩
    have hiff {half : Resource} {value : Value} (hhalf : half ∈ halves)
        (hrefers : value.RefersTo half.node.identifier) :
        StatesAbout v x p value t ↔ Publishes v owner p value t :=
      statesAbout_iff_publishes hsees hx hdrained howner hown hp hvisible hhalf hrefers
    constructor
    · rintro ⟨value, hstates⟩
      obtain ⟨half, hhalf, hrefers⟩ := hstates.refersTo hx
      exact ⟨half, hhalf, value, hrefers, (hiff hhalf hrefers).1 hstates⟩
    · rintro ⟨half, hhalf, value, hrefers, hpublishes⟩
      exact ⟨value, (hiff hhalf hrefers).2 hpublishes⟩
  case reference =>
    intro horderly half hhalf value hpath htarget
    have hsound := (Host.kept_of_orderly hr horderly).holds
      (Host.hasHeld_of_holds (Host.holds_current _ a.number))
    exact refersTo_of_target? hsees.readsFrom hsound htarget hpath

/-- A run that leaves a binary, and a container with a property that refers to either half of it and
holds text besides. -/
def referring : List Host.Call :=
  Host.runOf [.createBinary "/b" [] "text/plain", .createContainer "/c",
    .putProperty (.many "/c" "ldp:member" [.reference "0:0", .string "text", .weakReference "0:1"])]

/-- The nodes of the run, named by IRIs. -/
def referringView : View :=
  .ofMap ⟨"http://localhost"⟩ ((Access.direct 0).reader ((Host.start "root").run referring))

/-- The description of the binary of the run. -/
def referredDescription : Resource :=
  ⟨⟨"/b", "0:0", Vocab.Name.ntFile, [Vocab.Name.fedoraDescription]⟩, .description, "default"⟩

/-- The content of the binary of the run. -/
def referredContent : Resource :=
  ⟨⟨"/b/jcr:content", "0:1", Vocab.Name.ntResource, [Vocab.Name.fedoraBinary]⟩, .binary, "default"⟩

/-- The container states once for each half that it has the binary as a member. -/
theorem references_mirror_referring :
    let member : Triple :=
      ⟨.iri "http://localhost/c", .iri Vocab.Ldp.member, .iri "http://localhost/b"⟩
    referredDescription.Whole referringView.reader [referredContent, referredDescription] ∧
      MirrorsReferences (.start "root") referring referringView (.direct 0) referredDescription
        [referredContent, referredDescription] (.iri "http://localhost/b") [member, member] := by
  have hreader : referringView.reader =
      (Access.direct 0).reader ((Host.mk (.start "root") []).run referring) := by
    rw [referringView, View.ofMap, Host.start]
  have hhalves : referredDescription.Halves referringView.reader referredContent :=
    ⟨rfl, rfl, by decide +kernel, by decide +kernel, by decide +kernel, by decide +kernel⟩
  exact ⟨.description hhalves, references_mirror (Repository.isNew_start "root")
    (Host.fresh_runOf _) (.direct 0) hreader (View.namesNodes_ofMap _ _) (.description hhalves)
    (by decide +kernel) (by decide +kernel)⟩

end Description

end LinkedStore
