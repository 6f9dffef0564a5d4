import LinkedStore.Description.Membership
import LinkedStore.Proofs.Host.Reading
import LinkedStore.Proofs.Stream.Items

/-!
# What containers state of their children

The members of a resource are what the containers that assert membership on it state of their
children.  A container is among them if it names the resource, by a reference to it or by naming
none at all.

## Main definitions

* `Description.Contributes` : a container states a triple of one of its children.
* `Description.Names` : a container asserts membership on a resource.

## Main statements

* `Description.mem_membership_iff` : the members of a resource are what its containers contribute.
* `Description.Names.mem_membershipContainers` : a container is found that names the resource.
-/

namespace LinkedStore.Description

open Vocab.Name

variable {v : View} {w : Workspace} {x c m : Resource} {topic : Term} {t : Triple}

/-! ### What a container states of a child -/

/-- A container states a triple of one of its children, on a resource that it asserts membership
on. -/
def Contributes (v : View) (x c m : Resource) (t : Triple) : Prop :=
  ∃ topic containers variant relation part listing terms,
    v.subject x = .ok topic ∧ membershipContainers v x topic = .ok containers ∧
    (c, variant) ∈ containers ∧ memberRelation v c variant = .ok (some relation) ∧
    memberPart v c variant = .ok (some part) ∧ c.children v.reader = .ok listing ∧
    .ok m ∈ listing ∧ memberTerms v m part = .ok terms ∧
    ∃ term ∈ terms, t = ⟨topic, .iri relation, term⟩

theorem ok_mem_eachOfNode_iff {a : Reader} {nodes : List (Except Error Node)} :
    .ok m ∈ Resource.eachOfNode a nodes ↔ ∃ n, .ok n ∈ nodes ∧ Resource.ofNode a n = .ok m := by
  rw [Resource.eachOfNode, List.mem_map]
  constructor
  · rintro ⟨item, hitem, h⟩
    obtain ⟨n, rfl, hrole⟩ := bind_eq_ok_iff.1 h
    exact ⟨n, hitem, hrole⟩
  · rintro ⟨n, hn, hrole⟩
    exact ⟨.ok n, hn, hrole⟩

theorem memberTriples_eq_ok_iff {relation : String} {part : MemberPart} {n : Node}
    {s : Stream View} :
    memberTriples topic relation part n v = .ok s ↔
      ∃ m terms, Resource.ofNode v.reader n = .ok m ∧ memberTerms v m part = .ok terms ∧
        .ofTriples topic (terms.map fun term => ⟨topic, .iri relation, term⟩) = s := by
  simp only [memberTriples, bind_eq_ok_iff, pure_eq_ok_iff, exists_and_left]

theorem memberTerms_subject_eq_ok_iff {terms : List Term} :
    memberTerms v m .subject = .ok terms ↔ ∃ term, v.subject m = .ok term ∧ [term] = terms := by
  simp only [memberTerms, bind_eq_ok_iff, pure_eq_ok_iff]

/-- What a container states on a resource is what it states of each of its children. -/
theorem mem_containerTriples_iff {k : ContainerVariant} {s : Stream View} {triples : List Triple}
    (hs : containerTriples topic (c, k) v = .ok s) (h : s.collect v = .ok triples) :
    t ∈ triples ↔ ∃ relation part listing m terms, memberRelation v c k = .ok (some relation) ∧
      memberPart v c k = .ok (some part) ∧ c.children v.reader = .ok listing ∧ .ok m ∈ listing ∧
      memberTerms v m part = .ok terms ∧ ∃ term ∈ terms, t = ⟨topic, .iri relation, term⟩ := by
  rw [containerTriples, bind_eq_ok_iff] at hs
  obtain ⟨relation?, hrelation, hs⟩ := hs
  cases relation? with
  | none =>
      obtain rfl := Except.ok.inj hs
      obtain rfl := Except.ok.inj (Stream.collect_empty.symm.trans h)
      simp [hrelation]
  | some relation =>
      rw [bind_eq_ok_iff] at hs
      obtain ⟨part?, hpart, hs⟩ := hs
      cases part? with
      | none =>
          obtain rfl := Except.ok.inj hs
          obtain rfl := Except.ok.inj (Stream.collect_empty.symm.trans h)
          simp [hpart]
      | some part =>
          obtain ⟨nodes, hnodes, hs⟩ := bind_eq_ok_iff.1 hs
          obtain rfl := Except.ok.inj hs
          rw [Stream.mem_collect_flatMap_iff h]
          have hlisting : c.children v.reader = .ok (Resource.eachOfNode v.reader nodes) := by
            rw [Resource.children, hnodes, Except.map]
          constructor
          · rintro ⟨n, hn, s, triples, hs, htriples, ht⟩
            obtain ⟨m, terms, hm, hterms, rfl⟩ := memberTriples_eq_ok_iff.1 hs
            rw [Stream.collect_ofTriples] at htriples
            obtain rfl := Except.ok.inj htriples
            obtain ⟨term, hterm, rfl⟩ := List.mem_map.1 ht
            exact ⟨relation, part, _, m, terms, hrelation, hpart, hlisting,
              ok_mem_eachOfNode_iff.2 ⟨n, hn, hm⟩, hterms, term, hterm, rfl⟩
          · rintro ⟨relation', part', listing, m, terms, hrelation', hpart', hlisting', hm, hterms,
              term, hterm, rfl⟩
            obtain rfl := Option.some.inj (Except.ok.inj (hrelation.symm.trans hrelation'))
            obtain rfl := Option.some.inj (Except.ok.inj (hpart.symm.trans hpart'))
            obtain rfl := Except.ok.inj (hlisting.symm.trans hlisting')
            obtain ⟨n, hn, hrole⟩ := ok_mem_eachOfNode_iff.1 hm
            exact ⟨n, hn, _, _, memberTriples_eq_ok_iff.2 ⟨m, terms, hrole, hterms, rfl⟩,
              Stream.collect_ofTriples _ _, List.mem_map.2 ⟨term, hterm, rfl⟩⟩

/-- The members of a resource are drained from the containers that assert membership on it. -/
theorem exists_containers_of_collect {triples : List Triple} (htopic : v.subject x = .ok topic)
    (h : (membership v x >>= fun s => s.collect v) = .ok triples) : ∃ containers,
      membershipContainers v x topic = .ok containers ∧
      (Stream.flatMap topic (containers.map .ok) (containerTriples topic)).collect v =
        .ok triples := by
  obtain ⟨s, hs, h⟩ := bind_eq_ok_iff.1 h
  obtain ⟨topic', htopic', hs⟩ := bind_eq_ok_iff.1 hs
  obtain rfl := Except.ok.inj (htopic.symm.trans htopic')
  obtain ⟨containers, hcontainers, hs⟩ := bind_eq_ok_iff.1 hs
  obtain rfl := Except.ok.inj hs
  exact ⟨containers, hcontainers, h⟩

/-- **The members of a resource** are what containers contribute. -/
theorem mem_membership_iff {s : Stream View} {triples : List Triple}
    (hs : membership v x = .ok s) (h : s.collect v = .ok triples) :
    t ∈ triples ↔ ∃ c m, Contributes v x c m t := by
  obtain ⟨topic, htopic, hs⟩ := bind_eq_ok_iff.1 hs
  obtain ⟨containers, hcontainers, hs⟩ := bind_eq_ok_iff.1 hs
  obtain rfl := Except.ok.inj hs
  have hlisted (found : Resource × ContainerVariant) :
      .ok found ∈ containers.map (Except.ok (ε := Error)) ↔ found ∈ containers :=
    List.mem_map_of_injective fun _ _ => Except.ok.inj
  rw [Stream.mem_collect_flatMap_iff h]
  constructor
  · rintro ⟨⟨c, k⟩, hc, s, part, hs, hpart, ht⟩
    obtain ⟨relation, part, listing, m, terms, hm⟩ := (mem_containerTriples_iff hs hpart).1 ht
    exact ⟨c, m, topic, containers, k, relation, part, listing, terms, htopic, hcontainers,
      (hlisted _).1 hc, hm⟩
  · rintro ⟨c, m, topic', containers', k, relation, part, listing, terms, htopic', hcontainers', hc,
      hm⟩
    obtain rfl := Except.ok.inj (htopic.symm.trans htopic')
    obtain rfl := Except.ok.inj (hcontainers.symm.trans hcontainers')
    obtain ⟨s, part, hs, hpart⟩ := Stream.exists_collect_of_mem h ((hlisted _).2 hc)
    exact ⟨(c, k), (hlisted _).2 hc, s, part, hs, hpart,
      (mem_containerTriples_iff hs hpart).2 ⟨relation, _, listing, m, terms, hm⟩⟩

/-! ### The containers that assert membership on a resource -/

/-- A container asserts membership on a resource: on itself, since it names none, or on the one
that it refers to. -/
inductive Names (v : View) (c : Resource) : Resource → Prop
  | itself (hproperty : c.property v.reader ldpMembershipResource = .ok none) : Names v c c
  | reference {x : Resource} {p : Property} {value : Value}
      (hproperty : c.property v.reader ldpMembershipResource = .ok (some p))
      (hvalues : p.values = [value])
      (hvalue : value = .reference x.node.identifier ∨ value = .weakReference x.node.identifier)
      (hx : Resource.byIdentifier? v.reader x.node.identifier = .ok (some x)) : Names v c x

theorem Names.membershipResource_eq (h : Names v c x) (htopic : v.subject x = .ok topic) :
    membershipResource v c = .ok (some topic) := by
  cases h with
  | itself hproperty =>
      rw [membershipResource, hproperty]
      exact map_eq_ok_iff.2 ⟨topic, htopic, rfl⟩
  | @reference _ p value hproperty hvalues hvalue hx =>
      have hterm : v.termOf? value = .ok (some topic) := by
        rcases hvalue with rfl | rfl
        · exact bind_eq_ok_iff.2 ⟨some x, hx, map_eq_ok_iff.2 ⟨topic, htopic, rfl⟩⟩
        · exact bind_eq_ok_iff.2 ⟨some x, hx, map_eq_ok_iff.2 ⟨topic, htopic, rfl⟩⟩
      have hpointer : value.isNodePointer = true := by rcases hvalue with rfl | rfl <;> rfl
      rw [membershipResource, hproperty]
      simp only [bind, Except.bind, Property.value?, hvalues, List.head?_cons, hpointer, if_true,
        hterm]

theorem withVariant_eq_ok_iff {found : Option (Resource × ContainerVariant)} :
    withVariant v c = .ok found ↔ ∃ k?, c.variant v.reader = .ok k? ∧
      k?.map (fun k => (c, k)) = found := by
  rw [withVariant, bind_eq_ok_iff]
  simp only [pure_eq_ok_iff]

/-- A container that names a resource is found by the listing of its references. -/
theorem mem_namingContainers {seen : List String} {listing : List (Except Error Property)}
    {containers : List (Resource × ContainerVariant)} {p : Property}
    {found : Resource × ContainerVariant}
    (h : namingContainers v seen listing = .ok containers) (hp : .ok p ∈ listing)
    (hname : p.name = ldpMembershipResource) (hseen : p.owner ∉ seen)
    (hfound : containerAt v p.owner = .ok (some found)) : found ∈ containers := by
  induction listing generalizing seen containers with
  | nil => cases hp
  | cons item listing ih =>
      rw [namingContainers, bind_eq_ok_iff] at h
      obtain ⟨q, rfl, h⟩ := h
      split at h
      · rename_i hskip
        rcases List.mem_cons.1 hp with heq | hp
        · obtain rfl := Except.ok.inj heq
          rcases hskip with hother | hmem
          · exact absurd hname hother
          · exact absurd (List.contains_iff_mem.1 hmem) hseen
        · exact ih h hp hseen
      · obtain ⟨found', hfound', h⟩ := bind_eq_ok_iff.1 h
        obtain ⟨more, hmore, h⟩ := bind_eq_ok_iff.1 h
        obtain rfl := Except.ok.inj h
        by_cases howner : p.owner = q.owner
        · rw [howner, hfound'] at hfound
          obtain rfl := Except.ok.inj hfound
          exact List.mem_append_left _ (List.mem_singleton.2 rfl)
        · refine List.mem_append_right _ (ih hmore ?_ ?_)
          · exact (List.mem_cons.1 hp).resolve_left fun heq =>
              howner (congrArg Property.owner (Except.ok.inj heq))
          · exact fun hmem => (List.mem_cons.1 hmem).elim howner hseen

theorem containerAt_eq_some_iff {path : String} {k : ContainerVariant} :
    containerAt v path = .ok (some (c, k)) ↔
      Resource.at? v.reader path = .ok (some c) ∧ c.variant v.reader = .ok (some k) := by
  rw [containerAt, bind_eq_ok_iff]
  constructor
  · rintro ⟨y?, hy, hfound⟩
    cases y? with
    | none => cases hfound
    | some y =>
        obtain ⟨k?, hk, hfound⟩ := withVariant_eq_ok_iff.1 hfound
        obtain ⟨k', rfl, heq⟩ := Option.map_eq_some_iff.1 hfound
        obtain ⟨rfl, rfl⟩ := Prod.mk.inj heq
        exact ⟨hy, hk⟩
  · rintro ⟨hy, hk⟩
    exact ⟨some c, hy, withVariant_eq_ok_iff.2 ⟨some k, hk, rfl⟩⟩

/-- Each container that is found is the owner of a listed property. -/
theorem exists_of_mem_namingContainers {seen : List String}
    {listing : List (Except Error Property)} {containers : List (Resource × ContainerVariant)}
    {found : Resource × ContainerVariant} (h : namingContainers v seen listing = .ok containers)
    (hfound : found ∈ containers) : ∃ p, .ok p ∈ listing ∧ p.name = ldpMembershipResource ∧
      containerAt v p.owner = .ok (some found) := by
  induction listing generalizing seen containers with
  | nil =>
      obtain rfl := Except.ok.inj h
      cases hfound
  | cons item listing ih =>
      have hlater {seen : List String} {containers : List (Resource × ContainerVariant)}
          (h : namingContainers v seen listing = .ok containers) (hfound : found ∈ containers) :
          ∃ p, .ok p ∈ item :: listing ∧ p.name = ldpMembershipResource ∧
            containerAt v p.owner = .ok (some found) := by
        obtain ⟨q, hq, hname, hat⟩ := ih h hfound
        exact ⟨q, List.mem_cons_of_mem _ hq, hname, hat⟩
      rw [namingContainers, bind_eq_ok_iff] at h
      obtain ⟨p, rfl, h⟩ := h
      split at h
      · exact hlater h hfound
      · rename_i hnaming
        obtain ⟨found?, hat, h⟩ := bind_eq_ok_iff.1 h
        obtain ⟨more, hmore, h⟩ := bind_eq_ok_iff.1 h
        obtain rfl := Except.ok.inj h
        rcases List.mem_append.1 hfound with hfound | hfound
        · obtain rfl := Option.mem_toList.1 hfound
          exact ⟨p, List.mem_cons_self, not_not.1 (not_or.1 hnaming).1, hat⟩
        · exact hlater hmore hfound

theorem membershipContainers_eq_ok {containers : List (Resource × ContainerVariant)}
    (h : membershipContainers v x topic = .ok containers) : ∃ own listing naming,
      ownContainer v x topic = .ok own ∧ v.reader.references x.path .all = .ok listing ∧
      namingContainers v (own.toList.map fun found => found.1.path) listing = .ok naming ∧
      own.toList ++ naming = containers := by
  obtain ⟨own, hown, h⟩ := bind_eq_ok_iff.1 h
  obtain ⟨listing, hlisting, h⟩ := bind_eq_ok_iff.1 h
  obtain ⟨naming, hnaming, h⟩ := bind_eq_ok_iff.1 h
  exact ⟨own, listing, naming, hown, hlisting, hnaming, Except.ok.inj h⟩

/-- The own container of a resource is the resource itself. -/
theorem ownContainer_eq_some {k : ContainerVariant}
    (h : ownContainer v x topic = .ok (some (c, k))) :
    c = x ∧ x.variant v.reader = .ok (some k) := by
  obtain ⟨found, hfound, h⟩ := bind_eq_ok_iff.1 h
  obtain ⟨k?, hk, rfl⟩ := withVariant_eq_ok_iff.1 hfound
  cases k? with
  | none => cases h
  | some k' =>
      obtain ⟨resource, -, h⟩ := bind_eq_ok_iff.1 h
      have h := Except.ok.inj h
      split at h
      · obtain ⟨rfl, rfl⟩ := Prod.mk.inj (Option.some.inj h)
        exact ⟨rfl, hk⟩
      · cases h

theorem variant_of_mem_membershipContainers {containers : List (Resource × ContainerVariant)}
    {k : ContainerVariant} (h : membershipContainers v x topic = .ok containers)
    (hc : (c, k) ∈ containers) : c.variant v.reader = .ok (some k) := by
  obtain ⟨own, listing, naming, hown, -, hnaming, rfl⟩ := membershipContainers_eq_ok h
  rcases List.mem_append.1 hc with hc | hc
  · rw [Option.mem_toList.1 hc] at hown
    obtain ⟨rfl, hk⟩ := ownContainer_eq_some hown
    exact hk
  · obtain ⟨p, -, -, hat⟩ := exists_of_mem_namingContainers hnaming hc
    exact (containerAt_eq_some_iff.1 hat).2

/-- A container is among those that assert membership on the resource that it names. -/
theorem Names.mem_membershipContainers (ha : v.reader.ReadsFrom w) (hw : w.Filed)
    {containers : List (Resource × ContainerVariant)} {k : ContainerVariant}
    (hfound : Resource.at? v.reader c.path = .ok (some c))
    (hk : c.variant v.reader = .ok (some k)) (hnames : Names v c x)
    (htopic : v.subject x = .ok topic) (h : membershipContainers v x topic = .ok containers) :
    (c, k) ∈ containers := by
  obtain ⟨own, listing, naming, hown, hlisting, hnaming, rfl⟩ :=
    membershipContainers_eq_ok h
  have hvariant : withVariant v c = .ok (some (c, k)) := withVariant_eq_ok_iff.2 ⟨some k, hk, rfl⟩
  by_cases hself : c = x
  · subst hself
    have hresource := hnames.membershipResource_eq htopic
    rw [ownContainer, hvariant] at hown
    simp only [bind, Except.bind, hresource, if_true] at hown
    obtain rfl := Except.ok.inj hown
    exact List.mem_append_left _ (List.mem_singleton.2 rfl)
  · cases hnames with
    | itself _ => exact absurd rfl hself
    | @reference _ p value hproperty hvalues hvalue hx =>
        have hstored := ha.property hproperty
        obtain ⟨howner, hname, -⟩ := hw.property hstored
        have hc := Resource.foundIn_of_at? ha hw hfound
        have hxfound := Resource.foundIn_of_byIdentifier? ha hw hx
        have hreferences : p ∈ w.references x.path .all := by
          refine Workspace.mem_references hstored hxfound.stored
            (hvalues ▸ List.mem_singleton_self _) ?_ ?_
          · rcases hvalue with rfl | rfl <;> rfl
          · rcases hvalue with rfl | rfl <;> rfl
        refine List.mem_append_right _ (mem_namingContainers hnaming
          (ha.references hlisting hreferences) hname ?_ ?_)
        · -- the resource itself is a container of its own only
          intro hseen
          obtain ⟨⟨y, k'⟩, hy, hpath⟩ := List.mem_map.1 hseen
          rw [Option.mem_toList.1 hy] at hown
          obtain ⟨rfl, -⟩ := ownContainer_eq_some hown
          exact hself (hc.eq_of_path hxfound (howner.symm.trans hpath.symm))
        · exact containerAt_eq_some_iff.2 ⟨howner ▸ hfound, hk⟩

end LinkedStore.Description
