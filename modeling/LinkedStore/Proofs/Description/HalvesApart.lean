import LinkedStore.Proofs.Description.Embedding
import LinkedStore.Proofs.Description.MembershipAgreement
import LinkedStore.Proofs.Description.References

/-!
# Relations of either half

Membership, in both directions, and embedded nodes are read from one node only, although both halves
of a binary have the same term.  Whatever refers to the other half, and whatever the other half
holds, is passed over.  So the halves agree on these aspects as far as the same containers name
them, the same values stand for them, and the same blank nodes can be come by from them.

## Main definitions

* `Description.AssertsOn` : a container asserts membership on a node.
* `Description.StandsFor` : a term stands for a member on its own side.
* `Description.RelatedAlike` : both halves of a binary are related alike.
* `Description.EitherHalf` : what is stated about either half.
* `Description.RelatesHalves` : what is stated about either half, and where the halves agree.

## Main statements

* `Description.mem_membershipContainers_iff` : the containers that are found are those that assert
  membership on the node.
* `Description.relates_halves` : what is stated about either half, in every state of a host.
* `Description.not_related_alike` : the halves do not always agree.
-/

namespace LinkedStore.Description

open Vocab.Name

variable {v : View} {w : Workspace} {h : Host} {a : Access} {x y c content : Resource}
  {k : ContainerVariant} {topic term : Term} {t : Triple} {triples : List Triple}

/-! ### Membership -/

/-- A container asserts membership on a node of a state: on itself, if it names its own term, or on
a node that the property by which it names a resource refers to. -/
inductive AssertsOn (v : View) (w : Workspace) (y : Resource) (topic : Term) : Resource → Prop
  | itself (hresource : membershipResource v y = .ok (some topic)) : AssertsOn v w y topic y
  | reference {c : Resource} {p : Property}
      (hfound : Resource.at? v.reader c.path = .ok (some c)) (howner : p.owner = c.path)
      (hname : p.name = ldpMembershipResource) (hrefers : w.Refers p y.node) :
      AssertsOn v w y topic c

/-- A node is its own container if it names its own term. -/
theorem ownContainer_eq_some_iff :
    ownContainer v y topic = .ok (some (c, k)) ↔
      c = y ∧ y.variant v.reader = .ok (some k) ∧ membershipResource v y = .ok (some topic) := by
  constructor
  · intro h
    obtain ⟨rfl, hk⟩ := ownContainer_eq_some h
    refine ⟨rfl, hk, ?_⟩
    rw [ownContainer, withVariant_eq_ok_iff.2 ⟨some k, hk, rfl⟩] at h
    obtain ⟨found, hfound, h⟩ := bind_eq_ok_iff.1 h
    obtain rfl := Except.ok.inj hfound
    obtain ⟨resource, hresource, h⟩ := bind_eq_ok_iff.1 h
    have h := Except.ok.inj h
    split at h
    · rename_i htopic
      rw [hresource, htopic]
    · cases h
  · rintro ⟨rfl, hk, hresource⟩
    rw [ownContainer, withVariant_eq_ok_iff.2 ⟨some k, hk, rfl⟩]
    simp only [Option.map_some, bind, Except.bind, hresource, if_true]
    rfl

/-- The containers that are found for a node are those that assert membership on it. -/
theorem mem_membershipContainers_iff (hv : v.reader = a.reader h)
    (hw : (h.current a.number).Filed) (hy : y.FoundIn (h.current a.number) v.reader)
    {containers : List (Resource × ContainerVariant)}
    (hcontainers : membershipContainers v y topic = .ok containers) :
    (c, k) ∈ containers ↔
      AssertsOn v (h.current a.number) y topic c ∧ c.variant v.reader = .ok (some k) := by
  have hreads : v.reader.ReadsFrom (h.current a.number) := hv ▸ a.readsFrom h
  constructor
  · intro hc
    refine ⟨?_, variant_of_mem_membershipContainers hcontainers hc⟩
    obtain ⟨own, listing, naming, hown, hlisting, hnaming, rfl⟩ :=
      membershipContainers_eq_ok hcontainers
    rcases List.mem_append.1 hc with hc | hc
    · rw [Option.mem_toList.1 hc] at hown
      obtain ⟨rfl, -, hresource⟩ := ownContainer_eq_some_iff.1 hown
      exact .itself hresource
    · obtain ⟨p, hp, hname, hat⟩ := exists_of_mem_namingContainers hnaming hc
      have hfound := (containerAt_eq_some_iff.1 hat).1
      obtain ⟨n, hn, hrole⟩ := Resource.at?_eq_some_iff.1 hfound
      have hpath : c.path = p.owner := by
        rw [Resource.path, Resource.node_of_ofNode hrole]
        exact hw.path (hreads.node hn)
      exact .reference (hpath ▸ hfound) hpath.symm hname
        ((hw.mem_references_iff hy.stored).1 (Access.mem_references (hv ▸ hlisting) hp))
  · rintro ⟨hasserts, hk⟩
    obtain ⟨own, listing, naming, hown, hlisting, hnaming, rfl⟩ :=
      membershipContainers_eq_ok hcontainers
    cases hasserts with
    | itself hresource =>
        obtain rfl := Except.ok.inj
          ((ownContainer_eq_some_iff.2 ⟨rfl, hk, hresource⟩).symm.trans hown)
        exact List.mem_append_left _ (List.mem_singleton_self _)
    | reference hfound howner hname hrefers =>
        by_cases hseen : c.path ∈ own.toList.map fun found => found.1.path
        · -- It is looked at once, as the node itself.
          obtain ⟨⟨z, k'⟩, hz, hpath⟩ := List.mem_map.1 hseen
          rw [Option.mem_toList.1 hz] at hown
          obtain ⟨rfl, hk', -⟩ := ownContainer_eq_some_iff.1 hown
          obtain rfl := (Resource.foundIn_of_at? hreads hw hfound).eq_of_path hy hpath.symm
          obtain rfl := Option.some.inj (Except.ok.inj (hk.symm.trans hk'))
          exact List.mem_append_left _ hz
        · have hlisted := hreads.references hlisting ((hw.mem_references_iff hy.stored).2 hrefers)
          exact List.mem_append_right _ (mem_namingContainers hnaming hlisted hname
            (howner ▸ hseen) (containerAt_eq_some_iff.2 ⟨howner ▸ hfound, hk⟩))

/-- The members of a node are what the containers that assert membership on it declare. -/
theorem mem_membership_iff_assertsOn (hv : v.reader = a.reader h)
    (hw : (h.current a.number).Filed) (hy : y.FoundIn (h.current a.number) v.reader)
    (htopic : v.subject y = .ok topic)
    (hdrained : (membership v y >>= fun s => s.collect v) = .ok triples) :
    t ∈ triples ↔ ∃ c, AssertsOn v (h.current a.number) y topic c ∧ Declares v c topic t := by
  obtain ⟨containers, hcontainers, -⟩ := exists_containers_of_collect htopic hdrained
  rw [mem_membership_iff_declares htopic hcontainers hdrained]
  constructor
  · rintro ⟨⟨c, k⟩, hc, hdeclares⟩
    exact ⟨c, ((mem_membershipContainers_iff hv hw hy hcontainers).1 hc).1, hdeclares⟩
  · rintro ⟨c, hasserts, hdeclares⟩
    obtain ⟨k, -, -, -, -, hk, -⟩ := id hdeclares
    exact ⟨(c, k), (mem_membershipContainers_iff hv hw hy hcontainers).2 ⟨hasserts, hk⟩, hdeclares⟩

/-! ### The other direction -/

/-- A term stands for a member on its own side: the term of the member, or that of a value of a
property of the member, if it names something in the repository. -/
inductive StandsFor (v : View) (m : Resource) (topic : Term) (inserted : String) : Term → Prop
  | member (hinserted : inserted = Vocab.Ldp.memberSubject) : StandsFor v m topic inserted topic
  | value {name : String} {p : Property} {value : Value} {term : Term}
      (hother : inserted ≠ Vocab.Ldp.memberSubject)
      (hname : Naming.name? v.reader inserted = .ok (some name))
      (hproperty : m.property v.reader name = .ok (some p)) (hvalue : value ∈ p.values)
      (hterm : v.termOf? value = .ok (some term)) (hown : isOwnIri v term = true) :
      StandsFor v m topic inserted term

theorem standsFor_iff_of_memberSubject {inserted : String}
    (hinserted : inserted = Vocab.Ldp.memberSubject) :
    StandsFor v y topic inserted term ↔ term = topic := by
  constructor
  · intro hstands
    cases hstands with
    | member _ => rfl
    | value hother => exact absurd hinserted hother
  · rintro rfl
    exact .member hinserted

theorem ownTerms_memberSubject : ownTerms v y topic Vocab.Ldp.memberSubject = .ok [topic] := by
  rw [ownTerms, memberPartOf_memberSubject]
  rfl

theorem mem_ownTerms_iff_standsFor {inserted : String} {terms : List Term}
    (hterms : ownTerms v y topic inserted = .ok terms) :
    term ∈ terms ↔ StandsFor v y topic inserted term := by
  by_cases hsubject : inserted = Vocab.Ldp.memberSubject
  · subst hsubject
    obtain rfl := Except.ok.inj (ownTerms_memberSubject.symm.trans hterms)
    rw [List.mem_singleton, standsFor_iff_of_memberSubject rfl]
  · obtain ⟨part?, hpart, hterms⟩ := bind_eq_ok_iff.1 hterms
    rw [memberPartOf, if_neg hsubject] at hpart
    obtain ⟨name?, hname, hpart⟩ := bind_eq_ok_iff.1 hpart
    obtain rfl := pure_eq_ok_iff.1 hpart
    cases name? with
    | none =>
        obtain rfl := Except.ok.inj hterms
        refine iff_of_false List.not_mem_nil fun hstands => ?_
        cases hstands with
        | member hinserted => exact hsubject hinserted
        | value _ hname' => cases hname.symm.trans hname'
    | some name =>
        obtain ⟨stated, hstated, hterms⟩ := bind_eq_ok_iff.1 hterms
        obtain rfl := Except.ok.inj hterms
        obtain ⟨p?, hproperty, hstated⟩ := bind_eq_ok_iff.1 hstated
        rw [List.mem_filter]
        constructor
        · rintro ⟨hmem, hown⟩
          cases p? with
          | none =>
              obtain rfl := Except.ok.inj hstated
              cases hmem
          | some p =>
              obtain ⟨value, hvalue, hterm⟩ := (mem_termsOf_iff hstated).1 hmem
              exact .value hsubject hname hproperty hvalue hterm hown
        · intro hstands
          cases hstands with
          | member hinserted => exact absurd hinserted hsubject
          | value _ hname' hproperty' hvalue hterm hown =>
              obtain rfl := Option.some.inj (Except.ok.inj (hname.symm.trans hname'))
              obtain rfl := Except.ok.inj (hproperty.symm.trans hproperty')
              exact ⟨(mem_termsOf_iff hstated).2 ⟨_, hvalue, hterm⟩, hown⟩

/-- What a member states on its own side is that the terms that stand for it are related to the
resource that its container names. -/
theorem mem_isMemberOf_iff_standsFor (htopic : v.subject y = .ok topic)
    (hdrained : (isMemberOf v y >>= fun s => s.collect v) = .ok triples) :
    t ∈ triples ↔ ∃ inverse term, inverseRelation v y = .ok (some inverse) ∧
      StandsFor v y topic inverse.inserted term ∧
      t = ⟨term, .iri inverse.relation, inverse.target⟩ := by
  obtain ⟨s, hs, hdrained⟩ := bind_eq_ok_iff.1 hdrained
  obtain ⟨topic', htopic', hs⟩ := bind_eq_ok_iff.1 hs
  obtain rfl := Except.ok.inj (htopic.symm.trans htopic')
  obtain ⟨inverse?, hinverse, hs⟩ := bind_eq_ok_iff.1 hs
  cases inverse? with
  | none =>
      obtain rfl := Except.ok.inj hs
      obtain rfl := Except.ok.inj ((Stream.collect_ofTriples _ _).symm.trans hdrained)
      simp [hinverse]
  | some inverse =>
      obtain ⟨terms, hterms, hs⟩ := bind_eq_ok_iff.1 hs
      obtain rfl := Except.ok.inj hs
      obtain rfl := Except.ok.inj ((Stream.collect_ofTriples _ _).symm.trans hdrained)
      simp [hinverse, mem_ownTerms_iff_standsFor hterms, eq_comm]

/-- Both halves are told the same about the other direction. -/
theorem inverseRelation_eq_of_halves (hx : x.Halves v.reader content) :
    inverseRelation v x = inverseRelation v content := by
  rw [inverseRelation, inverseRelation, hx.container_eq]

/-- Both halves state the same on their own side unless the container names a property. -/
theorem isMemberOf_eq_of_halves (hx : x.Halves v.reader content)
    (hmember : ∀ inverse, inverseRelation v x = .ok (some inverse) →
      inverse.inserted = Vocab.Ldp.memberSubject) : isMemberOf v x = isMemberOf v content := by
  rw [isMemberOf, isMemberOf, hx.subject_eq, ← inverseRelation_eq_of_halves hx]
  cases hinverse : inverseRelation v x with
  | error e => rfl
  | ok inverse? =>
      cases inverse? with
      | none => rfl
      | some inverse =>
          simp only [bind, Except.bind, hmember inverse hinverse, ownTerms_memberSubject]

/-! ### Embedded nodes -/

/-- What is embedded in a node is what is stated about the blank nodes that it leads to. -/
theorem mem_blankNodes_iff (hreads : v.reader.ReadsFrom w) (hw : w.Filed)
    (hdrained : (blankNodes v y >>= fun s => s.collect v) = .ok triples) :
    t ∈ triples ↔ ∃ b part, Embedded v y b ∧ ownTriples v b = .ok part ∧ t ∈ part := by
  obtain ⟨s, hs, hdrained⟩ := bind_eq_ok_iff.1 hdrained
  obtain ⟨nodes, -, hnodes, parts, hparts, rfl⟩ := (embedsBlankNodes hreads hw y).exact hs hdrained
  have hmem {part : List Triple} := mem_iff_of_mapM_eq_ok (b := part) (mapM_eq_ok_iff.2 hparts)
  rw [List.mem_flatten]
  constructor
  · rintro ⟨part, hpart, ht⟩
    obtain ⟨b, hb, hown⟩ := hmem.1 hpart
    exact ⟨b, part, (hnodes b).1 hb, hown, ht⟩
  · rintro ⟨b, part, hb, hown, ht⟩
    exact ⟨part, hmem.2 ⟨b, (hnodes b).2 hb, hown⟩, ht⟩

/-! ### Both halves -/

/-- The aspects that are read from one node only. -/
def relational : List Aspect := [.membership, .isMemberOf, .blankNodes]

/-- Both halves of a binary are related alike: the same containers assert membership on them, the
same terms stand for them where their container names a property, and they lead to the same blank
nodes. -/
structure RelatedAlike (v : View) (w : Workspace) (x content : Resource) (topic : Term) : Prop where
  asserted : ∀ c, AssertsOn v w x topic c ↔ AssertsOn v w content topic c
  inserted : ∀ inverse, inverseRelation v x = .ok (some inverse) →
    inverse.inserted ≠ Vocab.Ldp.memberSubject → ∀ term,
      StandsFor v x topic inverse.inserted term ↔ StandsFor v content topic inverse.inserted term
  embedded : ∀ b, Embedded v x b ↔ Embedded v content b

theorem RelatedAlike.standsFor_iff (halike : RelatedAlike v w x content topic)
    {inverse : InverseRelation} (hinverse : inverseRelation v x = .ok (some inverse)) :
    StandsFor v x topic inverse.inserted term ↔
      StandsFor v content topic inverse.inserted term := by
  by_cases hsubject : inverse.inserted = Vocab.Ldp.memberSubject
  · rw [standsFor_iff_of_memberSubject hsubject, standsFor_iff_of_memberSubject hsubject]
  · exact halike.inserted inverse hinverse hsubject term

/-- What the aspects that are read from one node only state about either half of a binary. -/
structure EitherHalf (v : View) (w : Workspace) (x content : Resource) (topic : Term) : Prop where
  /-- All of it is about the one topic. -/
  topics : ∀ aspect ∈ relational, ∀ half ∈ [content, x], ∀ s, generate aspect v half = .ok s →
    s.topic = some topic
  membership : ∀ half ∈ [content, x], ∀ triples,
    (membership v half >>= fun s => s.collect v) = .ok triples →
      ∀ t, t ∈ triples ↔ ∃ c, AssertsOn v w half topic c ∧ Declares v c topic t
  /-- The container of either half is that of the description. -/
  isMemberOf : ∀ half ∈ [content, x], ∀ triples,
    (isMemberOf v half >>= fun s => s.collect v) = .ok triples →
      ∀ t, t ∈ triples ↔ ∃ inverse term, inverseRelation v x = .ok (some inverse) ∧
        StandsFor v half topic inverse.inserted term ∧
        t = ⟨term, .iri inverse.relation, inverse.target⟩
  /-- The halves state the same on their own side, failures included, unless their container names a
  property. -/
  sameMember : (∀ inverse, inverseRelation v x = .ok (some inverse) →
    inverse.inserted = Vocab.Ldp.memberSubject) →
      generate .isMemberOf v x = generate .isMemberOf v content
  blankNodes : ∀ half ∈ [content, x], ∀ triples,
    (blankNodes v half >>= fun s => s.collect v) = .ok triples →
      ∀ t, t ∈ triples ↔ ∃ b part, Embedded v half b ∧ ownTriples v b = .ok part ∧ t ∈ part

/-- What is stated about either half of a binary, and where the halves agree: if they are related
alike. -/
structure RelatesHalves (v : View) (w : Workspace) (x content : Resource) (topic : Term) : Prop
    extends EitherHalf v w x content topic where
  agree : RelatedAlike v w x content topic → ∀ aspect ∈ relational, ∀ triples triples',
    (generate aspect v x >>= fun s => s.collect v) = .ok triples →
      (generate aspect v content >>= fun s => s.collect v) = .ok triples' →
        ∀ t, t ∈ triples ↔ t ∈ triples'

/-- What is read from a node is about the term of the node. -/
theorem topic_of_generate {aspect : Aspect} (haspect : aspect ∈ relational) {s : Stream View}
    (htopic : v.subject y = .ok topic) (hs : generate aspect v y = .ok s) :
    s.topic = some topic := by
  simp only [relational, List.mem_cons, List.not_mem_nil, or_false] at haspect
  rcases haspect with rfl | rfl | rfl
  all_goals
    obtain ⟨topic', htopic', hs⟩ := bind_eq_ok_iff.1 hs
    obtain rfl := Except.ok.inj (htopic.symm.trans htopic')
  · obtain ⟨containers, -, hs⟩ := bind_eq_ok_iff.1 hs
    obtain rfl := Except.ok.inj hs
    rfl
  · obtain ⟨inverse?, -, hs⟩ := bind_eq_ok_iff.1 hs
    cases inverse? with
    | none =>
        obtain rfl := Except.ok.inj hs
        rfl
    | some inverse =>
        obtain ⟨terms, -, hs⟩ := bind_eq_ok_iff.1 hs
        obtain rfl := Except.ok.inj hs
        rfl
  · obtain ⟨listing, -, hs⟩ := bind_eq_ok_iff.1 hs
    obtain rfl := Except.ok.inj hs
    rfl

theorem eitherHalf_of_halves (hv : v.reader = a.reader h) (hw : (h.current a.number).Filed)
    (hx : x.Halves v.reader content) (htopic : v.subject x = .ok topic) :
    EitherHalf v (h.current a.number) x content topic := by
  have hreads : v.reader.ReadsFrom (h.current a.number) := hv ▸ a.readsFrom h
  have hwhole : x.Whole v.reader [content, x] := .description hx
  have hsubject {half : Resource} (hhalf : half ∈ [content, x]) : v.subject half = .ok topic :=
    (hwhole.subject_eq hhalf).trans htopic
  constructor
  case topics => exact fun _ haspect _ hhalf _ hs => topic_of_generate haspect (hsubject hhalf) hs
  case membership =>
    intro half hhalf triples hdrained t
    have hfound := Resource.foundIn_of_at? hreads hw (hwhole.found hhalf)
    exact mem_membership_iff_assertsOn hv hw hfound (hsubject hhalf) hdrained
  case isMemberOf =>
    intro half hhalf triples hdrained t
    have hinverse : inverseRelation v half = inverseRelation v x := by
      rcases List.mem_pair.1 hhalf with rfl | rfl
      · exact (inverseRelation_eq_of_halves hx).symm
      · rfl
    exact hinverse ▸ mem_isMemberOf_iff_standsFor (hsubject hhalf) hdrained
  case sameMember => exact isMemberOf_eq_of_halves hx
  case blankNodes => exact fun _ _ _ hdrained _ => mem_blankNodes_iff hreads hw hdrained

/-- Halves that are related alike agree on what is read from one node only. -/
theorem EitherHalf.agree (hhalves : EitherHalf v w x content topic)
    (halike : RelatedAlike v w x content topic) {aspect : Aspect} (haspect : aspect ∈ relational)
    {triples triples' : List Triple}
    (hdrained : (generate aspect v x >>= fun s => s.collect v) = .ok triples)
    (hdrained' : (generate aspect v content >>= fun s => s.collect v) = .ok triples') :
    t ∈ triples ↔ t ∈ triples' := by
  have hx : x ∈ [content, x] := List.mem_cons_of_mem _ List.mem_cons_self
  have hcontent : content ∈ [content, x] := List.mem_cons_self
  simp only [relational, List.mem_cons, List.not_mem_nil, or_false] at haspect
  rcases haspect with rfl | rfl | rfl
  · rw [hhalves.membership x hx _ hdrained, hhalves.membership content hcontent _ hdrained']
    simp only [halike.asserted]
  · rw [hhalves.isMemberOf x hx _ hdrained, hhalves.isMemberOf content hcontent _ hdrained']
    exact exists_congr fun inverse => exists_congr fun term => and_congr_right fun hinverse =>
      and_congr_left' (halike.standsFor_iff hinverse)
  · rw [hhalves.blankNodes x hx _ hdrained, hhalves.blankNodes content hcontent _ hdrained']
    simp only [halike.embedded]

/-- **What is stated about either half of a binary**, in every state of a host, through whatever the
state is read, and however the nodes are named. -/
theorem relates_halves {r : Repository} (hr : r.IsNew) (calls : List Host.Call) (a : Access)
    (hv : v.reader = a.reader ((Host.mk r []).run calls)) {path : String}
    (hx : Resource.at? v.reader path = .ok (some x)) (hdescription : x.kind = .description)
    (hcontent : Resource.at? v.reader (Path.child path Vocab.Name.content) = .ok (some content))
    (hbinary : content.kind = .binary) (htopic : v.subject x = .ok topic) :
    RelatesHalves v (((Host.mk r []).run calls).current a.number) x content topic := by
  have hw := Host.filed_current hr calls a.number
  have hhalves := eitherHalf_of_halves hv hw
    (Resource.halves_of_at? (hv ▸ a.readsFrom _) hw hx hdescription hcontent hbinary) htopic
  exact ⟨hhalves, fun halike aspect haspect triples triples' hdrained hdrained' t =>
    hhalves.agree halike haspect hdrained hdrained'⟩

/-- A run that leaves a binary, and a basic container with a child that names the description of the
binary. -/
def relating : List Host.Call :=
  Host.runOf [.createBinary "/b" [] "text/plain", .createContainer "/c",
    .addMixin "/c" ldpBasicContainer, .createContainer "/c/m",
    .putProperty (.many "/c" ldpMembershipResource [.reference "0:0"])]

/-- The nodes of the run, named by IRIs. -/
def relatingView : View :=
  .ofMap ⟨"http://localhost"⟩ ((Access.direct 0).reader ((Host.start "root").run relating))

/-- The halves of the binary of the run agree on the other direction, since nothing contains them
but the root. -/
theorem relates_halves_relating :
    RelatesHalves relatingView (((Host.start "root").run relating).current 0) referredDescription
        referredContent (.iri "http://localhost/b") ∧
      inverseRelation relatingView referredDescription = .ok none := by
  have hreader : relatingView.reader =
      (Access.direct 0).reader ((Host.mk (.start "root") []).run relating) := by
    rw [relatingView, View.ofMap, Host.start]
  have hfound : Resource.at? relatingView.reader "/b" = .ok (some referredDescription) := by
    decide +kernel
  exact ⟨relates_halves (Repository.isNew_start "root") relating (.direct 0) hreader hfound rfl
    (by decide +kernel) rfl (by decide +kernel), by decide +kernel⟩

/-- So it is not true that both halves have the same members: a container that names one of them
adds its children there only. -/
theorem not_related_alike :
    ¬∀ (calls : List Host.Call) (v : View) (x content : Resource) (path : String),
      v.reader = (Access.direct 0).reader ((Host.start "root").run calls) →
      Resource.at? v.reader path = .ok (some x) → x.kind = .description →
      Resource.at? v.reader (Path.child path Vocab.Name.content) = .ok (some content) →
      content.kind = .binary → x.node.isRoot = false → x.node.isFrozen = false →
      content.node.isFrozen = false → ∀ aspect ∈ relational, ∀ triples triples',
        (generate aspect v x >>= fun s => s.collect v) = .ok triples →
          (generate aspect v content >>= fun s => s.collect v) = .ok triples' →
            ∀ t, t ∈ triples ↔ t ∈ triples' := by
  intro hall
  let member : Triple :=
    ⟨.iri "http://localhost/b", .iri Vocab.Ldp.member, .iri "http://localhost/c/m"⟩
  have hiff := hall relating relatingView referredDescription referredContent "/b"
    (by rw [relatingView, View.ofMap]) (by decide +kernel) rfl (by decide +kernel) rfl
    (by decide +kernel) (by decide +kernel) (by decide +kernel) .membership (by decide) [member] []
    (by decide +kernel) (by decide +kernel) member
  exact absurd (hiff.1 (List.mem_singleton_self _)) List.not_mem_nil

end LinkedStore.Description
