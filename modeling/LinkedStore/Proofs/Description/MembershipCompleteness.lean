import LinkedStore.Proofs.Description.Membership
import LinkedStore.Proofs.Host.Integrity

/-!
# Completeness of membership

A membership resource states what each container that names it declares of its children.  The
containers are found by the references to the resource, so that they are found exactly if they name
it by a reference, strong or weak, that bears its identifier.  A container that names it by a path
is not found, although the path leads to the resource and the way up from a child takes it.

## Main definitions

* `Value.RefersTo` : a value is a reference to the node with an identifier.
* `Description.Declares` : what a container declares of its children, by its variant.
* `Description.AddsMembers` : how a container that names a resource adds to the members of it.

## Main statements

* `Description.mem_containerTriples_iff_declares` : a container states what it declares.
* `Description.refersTo_of_mem_membershipContainers` : a container is found by a reference.
* `Description.membership_complete` : what a container that names a resource adds to its members,
  in every state of a host.
-/

namespace LinkedStore

/-! ### References by identifier -/

/-- The value is a reference, strong or weak, to the node with an identifier. -/
def Value.RefersTo (value : Value) (identifier : String) : Prop :=
  value = .reference identifier ∨ value = .weakReference identifier

theorem Value.refersTo_iff {value : Value} {identifier : String} :
    value.RefersTo identifier ↔
      ReferenceKind.all.includes value = true ∧ value.text? = some identifier := by
  cases value <;> simp [RefersTo, ReferenceKind.includes, text?]

namespace Description

open Vocab.Name

variable {v : View} {w : Workspace} {x c m : Resource} {k : ContainerVariant} {topic term : Term}
  {t : Triple}

/-! ### What a container declares -/

/-- The predicate that a container declares its members under: a fixed one if it is basic, and one
of its own otherwise. -/
inductive DeclaresUnder (v : View) (c : Resource) : ContainerVariant → String → Prop
  | basic : DeclaresUnder v c .basic Vocab.Ldp.member
  | direct {relation : String}
      (hrelation : c.textProperty v.reader ldpHasMemberRelation = .ok (some relation)) :
      DeclaresUnder v c .direct relation
  | indirect {relation : String}
      (hrelation : c.textProperty v.reader ldpHasMemberRelation = .ok (some relation)) :
      DeclaresUnder v c .indirect relation

/-- The objects that a container declares of a child: the child itself, unless the container is
indirect and says that it is the values of a property of the child. -/
inductive DeclaresOf (v : View) (c m : Resource) : ContainerVariant → Term → Prop
  | basic {term : Term} (hterm : v.subject m = .ok term) : DeclaresOf v c m .basic term
  | direct {term : Term} (hterm : v.subject m = .ok term) : DeclaresOf v c m .direct term
  | child {term : Term}
      (hinserted : c.textProperty v.reader ldpInsertedContentRelation =
        .ok (some Vocab.Ldp.memberSubject))
      (hterm : v.subject m = .ok term) : DeclaresOf v c m .indirect term
  | value {inserted name : String} {p : Property} {value : Value} {term : Term}
      (hinserted : c.textProperty v.reader ldpInsertedContentRelation = .ok (some inserted))
      (hother : inserted ≠ Vocab.Ldp.memberSubject)
      (hname : Naming.name? v.reader inserted = .ok (some name))
      (hproperty : m.property v.reader name = .ok (some p)) (hvalue : value ∈ p.values)
      (hterm : v.termOf? value = .ok (some term)) : DeclaresOf v c m .indirect term

/-- A container declares a triple on a resource with a given term: one of its children, with the
predicate and the object that its variant gives.  A direct or indirect container that lacks what it
needs declares nothing. -/
def Declares (v : View) (c : Resource) (topic : Term) (t : Triple) : Prop :=
  ∃ k relation listing m term, c.variant v.reader = .ok (some k) ∧ DeclaresUnder v c k relation ∧
    c.children v.reader = .ok listing ∧ .ok m ∈ listing ∧ DeclaresOf v c m k term ∧
    t = ⟨topic, .iri relation, term⟩

theorem declaresUnder_iff {relation : String} :
    DeclaresUnder v c k relation ↔ memberRelation v c k = .ok (some relation) := by
  constructor
  · intro h
    cases h with
    | basic => rfl
    | direct hrelation => exact hrelation
    | indirect hrelation => exact hrelation
  · intro h
    cases k with
    | basic =>
        obtain rfl := Option.some.inj (Except.ok.inj h)
        exact .basic
    | direct => exact .direct h
    | indirect => exact .indirect h

theorem mem_termsOf_iff {values : List Value} {terms : List Term}
    (h : v.termsOf values = .ok terms) :
    term ∈ terms ↔ ∃ value ∈ values, v.termOf? value = .ok (some term) := by
  induction values generalizing terms with
  | nil =>
      obtain rfl := Except.ok.inj h
      simp
  | cons value values ih =>
      obtain ⟨term?, hterm, h⟩ := bind_eq_ok_iff.1 h
      obtain ⟨more, hmore, h⟩ := bind_eq_ok_iff.1 h
      obtain rfl := Except.ok.inj h
      simp [ih hmore, hterm]

/-- The part of its members that an indirect container states. -/
theorem memberPart_indirect_eq_ok_iff {part : MemberPart} :
    memberPart v c .indirect = .ok (some part) ↔ ∃ inserted,
      c.textProperty v.reader ldpInsertedContentRelation = .ok (some inserted) ∧
        (inserted = Vocab.Ldp.memberSubject ∧ part = .subject ∨
          inserted ≠ Vocab.Ldp.memberSubject ∧ ∃ name,
            Naming.name? v.reader inserted = .ok (some name) ∧ part = .valuesOf name) := by
  rw [memberPart, bind_eq_ok_iff]
  constructor
  · rintro ⟨inserted?, hinserted, hpart⟩
    cases inserted? with
    | none => cases hpart
    | some inserted =>
        refine ⟨inserted, hinserted, ?_⟩
        simp only [memberPartOf] at hpart
        split at hpart
        · rename_i hsubject
          exact .inl ⟨hsubject, (Option.some.inj (Except.ok.inj hpart)).symm⟩
        · rename_i hother
          obtain ⟨name?, hname, hpart⟩ := bind_eq_ok_iff.1 hpart
          obtain ⟨name, rfl, rfl⟩ := Option.map_eq_some_iff.1 (pure_eq_ok_iff.1 hpart)
          exact .inr ⟨hother, name, hname, rfl⟩
  · rintro ⟨inserted, hinserted, hpart⟩
    refine ⟨some inserted, hinserted, ?_⟩
    simp only [memberPartOf]
    rcases hpart with ⟨hsubject, rfl⟩ | ⟨hother, name, hname, rfl⟩
    · rw [if_pos hsubject]
      rfl
    · rw [if_neg hother, hname]
      rfl

/-- What is declared of a child is among the terms that stand for it. -/
theorem DeclaresOf.exists_memberPart (h : DeclaresOf v c m k term) :
    ∃ part, memberPart v c k = .ok (some part) ∧
      ∀ terms, memberTerms v m part = .ok terms → term ∈ terms := by
  have hsubject (hterm : v.subject m = .ok term) (terms : List Term)
      (hterms : memberTerms v m .subject = .ok terms) : term ∈ terms := by
    obtain ⟨child, hchild, rfl⟩ := memberTerms_subject_eq_ok_iff.1 hterms
    rw [List.mem_singleton]
    exact Except.ok.inj (hterm.symm.trans hchild)
  cases h with
  | basic hterm => exact ⟨.subject, rfl, hsubject hterm⟩
  | direct hterm => exact ⟨.subject, rfl, hsubject hterm⟩
  | child hinserted hterm =>
      exact ⟨.subject, memberPart_indirect_eq_ok_iff.2 ⟨_, hinserted, .inl ⟨rfl, rfl⟩⟩,
        hsubject hterm⟩
  | value hinserted hother hname hproperty hvalue hterm =>
      refine ⟨.valuesOf _, memberPart_indirect_eq_ok_iff.2
        ⟨_, hinserted, .inr ⟨hother, _, hname, rfl⟩⟩, fun terms hterms => ?_⟩
      simp only [memberTerms, hproperty, bind, Except.bind] at hterms
      exact (mem_termsOf_iff hterms).2 ⟨_, hvalue, hterm⟩

/-- The terms that stand for a child are declared of it. -/
theorem declaresOf_of_mem {part : MemberPart} {terms : List Term}
    (hpart : memberPart v c k = .ok (some part)) (hterms : memberTerms v m part = .ok terms)
    (hmem : term ∈ terms) : DeclaresOf v c m k term := by
  have hsubject (hterms : memberTerms v m .subject = .ok terms) : v.subject m = .ok term := by
    obtain ⟨child, hchild, rfl⟩ := memberTerms_subject_eq_ok_iff.1 hterms
    rw [hchild, List.mem_singleton.1 hmem]
  cases k with
  | basic =>
      obtain rfl := Option.some.inj (Except.ok.inj hpart)
      exact .basic (hsubject hterms)
  | direct =>
      obtain rfl := Option.some.inj (Except.ok.inj hpart)
      exact .direct (hsubject hterms)
  | indirect =>
      obtain ⟨inserted, hinserted, ⟨rfl, rfl⟩ | ⟨hother, name, hname, rfl⟩⟩ :=
        memberPart_indirect_eq_ok_iff.1 hpart
      · exact .child hinserted (hsubject hterms)
      · obtain ⟨p?, hproperty, hterms⟩ := bind_eq_ok_iff.1 hterms
        cases p? with
        | none =>
            obtain rfl := Except.ok.inj hterms
            cases hmem
        | some p =>
            obtain ⟨value, hvalue, hterm⟩ := (mem_termsOf_iff hterms).1 hmem
            exact .value hinserted hother hname hproperty hvalue hterm

/-- The stream of a child is drained with the others, so that there are terms for it. -/
theorem exists_memberTerms_of_collect {relation : String} {part : MemberPart}
    {listing : List (Except Error Resource)} {s : Stream View} {triples : List Triple}
    (hrelation : memberRelation v c k = .ok (some relation))
    (hpart : memberPart v c k = .ok (some part)) (hlisting : c.children v.reader = .ok listing)
    (hm : .ok m ∈ listing) (hs : containerTriples topic (c, k) v = .ok s)
    (h : s.collect v = .ok triples) : ∃ terms, memberTerms v m part = .ok terms := by
  rw [containerTriples, hrelation] at hs
  simp only [bind, Except.bind, hpart] at hs
  obtain ⟨nodes, hnodes, hs⟩ := bind_eq_ok_iff.1 hs
  obtain rfl := Except.ok.inj hs
  have hlisted : c.children v.reader = .ok (Resource.eachOfNode v.reader nodes) := by
    rw [Resource.children, hnodes, Except.map]
  obtain rfl := Except.ok.inj (hlisted.symm.trans hlisting)
  obtain ⟨n, hn, hrole⟩ := ok_mem_eachOfNode_iff.1 hm
  obtain ⟨s, _, hs, -⟩ := Stream.exists_collect_of_mem h hn
  obtain ⟨m', terms, hrole', hterms, -⟩ := memberTriples_eq_ok_iff.1 hs
  obtain rfl := Except.ok.inj (hrole.symm.trans hrole')
  exact ⟨terms, hterms⟩

/-- **A container states what it declares.** -/
theorem mem_containerTriples_iff_declares {s : Stream View} {triples : List Triple}
    (hk : c.variant v.reader = .ok (some k)) (hs : containerTriples topic (c, k) v = .ok s)
    (h : s.collect v = .ok triples) : t ∈ triples ↔ Declares v c topic t := by
  constructor
  · intro ht
    obtain ⟨relation, part, listing, m, terms, hrelation, hpart, hlisting, hm, hterms, term, hterm,
      rfl⟩ := (mem_containerTriples_iff hs h).1 ht
    exact ⟨k, relation, listing, m, term, hk, declaresUnder_iff.2 hrelation, hlisting, hm,
      declaresOf_of_mem hpart hterms hterm, rfl⟩
  · rintro ⟨k', relation, listing, m, term, hk', hrelation, hlisting, hm, hterm, rfl⟩
    obtain rfl := Option.some.inj (Except.ok.inj (hk.symm.trans hk'))
    have hrelation := declaresUnder_iff.1 hrelation
    obtain ⟨part, hpart, hmem⟩ := hterm.exists_memberPart
    obtain ⟨terms, hterms⟩ := exists_memberTerms_of_collect hrelation hpart hlisting hm hs h
    exact (mem_containerTriples_iff hs h).2 ⟨relation, part, listing, m, terms, hrelation, hpart,
      hlisting, hm, hterms, term, hmem terms hterms, rfl⟩

/-- The members of a resource are what the containers that are found declare. -/
theorem mem_membership_iff_declares {triples : List Triple}
    {containers : List (Resource × ContainerVariant)} (htopic : v.subject x = .ok topic)
    (hcontainers : membershipContainers v x topic = .ok containers)
    (h : (membership v x >>= fun s => s.collect v) = .ok triples) :
    t ∈ triples ↔ ∃ found ∈ containers, Declares v found.1 topic t := by
  obtain ⟨containers', hcontainers', h⟩ := exists_containers_of_collect htopic h
  obtain rfl := Except.ok.inj (hcontainers.symm.trans hcontainers')
  have hlisted (found : Resource × ContainerVariant) :
      .ok found ∈ containers.map (Except.ok (ε := Error)) ↔ found ∈ containers :=
    List.mem_map_of_injective fun _ _ => Except.ok.inj
  rw [Stream.mem_collect_flatMap_iff h]
  constructor
  · rintro ⟨⟨c, k⟩, hc, s, part, hs, hpart, ht⟩
    have hc := (hlisted _).1 hc
    exact ⟨(c, k), hc, (mem_containerTriples_iff_declares
      (variant_of_mem_membershipContainers hcontainers hc) hs hpart).1 ht⟩
  · rintro ⟨⟨c, k⟩, hc, ht⟩
    obtain ⟨s, part, hs, hpart⟩ := Stream.exists_collect_of_mem h ((hlisted _).2 hc)
    exact ⟨(c, k), (hlisted _).2 hc, s, part, hs, hpart, (mem_containerTriples_iff_declares
      (variant_of_mem_membershipContainers hcontainers hc) hs hpart).2 ht⟩

/-! ### Which containers are found -/

/-- A container other than the resource is found by a reference to it. -/
theorem refersTo_of_mem_membershipContainers {h : Host} {a : Access} (hv : v.reader = a.reader h)
    (hfiled : (h.current a.number).Filed) {containers : List (Resource × ContainerVariant)}
    {p : Property} (hx : x.FoundIn (h.current a.number) v.reader) (hother : c ≠ x)
    (hproperty : c.property v.reader ldpMembershipResource = .ok (some p))
    (hcontainers : membershipContainers v x topic = .ok containers) (hc : (c, k) ∈ containers) :
    ∃ value ∈ p.values, value.RefersTo x.node.identifier := by
  have hreads : v.reader.ReadsFrom (h.current a.number) := hv ▸ a.readsFrom h
  obtain ⟨own, listing, naming, hown, hlisting, hnaming, rfl⟩ :=
    membershipContainers_eq_ok hcontainers
  rcases List.mem_append.1 hc with hc | hc
  · rw [Option.mem_toList.1 hc] at hown
    exact absurd (ownContainer_eq_some hown).1 hother
  · obtain ⟨q, hq, hname, hat⟩ := exists_of_mem_namingContainers hnaming hc
    obtain ⟨n, owner, name, hn, hstored, hvalue⟩ := Workspace.exists_property?_of_mem_references
      (Access.mem_references (hv ▸ hlisting) hq)
    -- The property that was listed is the one that the container names the resource by.
    obtain ⟨howner, hnamed, -⟩ := hfiled.property hstored
    obtain ⟨m, hm, hrole⟩ := Resource.at?_eq_some_iff.1 (containerAt_eq_some_iff.1 hat).1
    have hpath : c.path = q.owner := by
      rw [Resource.path, Resource.node_of_ofNode hrole]
      exact hfiled.path (hreads.node hm)
    have hnaming := hreads.property hproperty
    rw [hpath, ← hname, howner, hnamed, hstored] at hnaming
    obtain rfl := Option.some.inj hnaming
    obtain rfl := Option.some.inj (hx.stored.symm.trans hn)
    obtain ⟨value, hvalue, hrefers⟩ := hvalue
    exact ⟨value, hvalue, Value.refersTo_iff.2 hrefers⟩

/-- In a sound state, a value that leads to a node other than by its path refers to it. -/
theorem refersTo_of_target? (ha : v.reader.ReadsFrom w) (hw : w.Sound) {value : Value}
    (htarget : v.target? value = .ok (some x)) (hpath : ∀ path, value ≠ .path path) :
    value.RefersTo x.node.identifier := by
  have hbears {identifier : String}
      (h : Resource.byIdentifier? v.reader identifier = .ok (some x)) :
      x.node.identifier = identifier := by
    obtain ⟨n, hnode, hrole⟩ := Resource.byIdentifier?_eq_some_iff.1 h
    obtain ⟨path, hfiled, hstored⟩ := Option.bind_eq_some_iff.1 (ha.nodeByIdentifier hnode)
    obtain ⟨n', hstored', hidentifier⟩ := hw.identifier.1 hfiled
    obtain rfl := Option.some.inj (hstored.symm.trans hstored')
    rw [Resource.node_of_ofNode hrole, hidentifier]
  cases value with
  | path path => exact absurd rfl (hpath path)
  | reference identifier => exact .inl (congrArg Value.reference (hbears htarget).symm)
  | weakReference identifier => exact .inr (congrArg Value.weakReference (hbears htarget).symm)
  | _ => cases htarget

/-! ### Completeness -/

/-- How a container that names a resource by a value adds to the members of the resource, after a
run from a repository. -/
structure AddsMembers (r : Repository) (calls : List Host.Call) (v : View) (x c : Resource)
    (value : Value) (topic : Term) (triples : List Triple) : Prop where
  /-- By a reference, it adds all that it declares. -/
  complete : value.RefersTo x.node.identifier → ∀ t, Declares v c topic t → t ∈ triples
  /-- By anything else, it adds nothing. -/
  missed : ¬value.RefersTo x.node.identifier → ∀ m t, ¬Contributes v x c m t
  /-- It names the resource by a reference unless by a path, if every identifier stands for one
  node. -/
  reference : Host.Orderly r calls →
    (value.RefersTo x.node.identifier ↔ ∀ path, value ≠ .path path)

/-- **Membership is complete for references**, and for nothing else, in every state of a host,
through whatever the state is read, and however the nodes are named. -/
theorem membership_complete {r : Repository} (hr : r.IsNew) (calls : List Host.Call) (a : Access)
    (hv : v.reader = a.reader ((Host.mk r []).run calls))
    (hfound : Resource.at? v.reader c.path = .ok (some c)) (hother : c ≠ x)
    (hk : c.variant v.reader = .ok (some k)) {p : Property} {value : Value}
    (hproperty : c.property v.reader ldpMembershipResource = .ok (some p))
    (hvalues : p.values = [value]) (htarget : v.target? value = .ok (some x))
    (htopic : v.subject x = .ok topic) {triples : List Triple}
    (h : (membership v x >>= fun s => s.collect v) = .ok triples) :
    AddsMembers r calls v x c value topic triples := by
  have hfiled := Host.filed_current hr calls a.number
  have hreads : v.reader.ReadsFrom _ := hv ▸ a.readsFrom _
  obtain ⟨s, hs, -⟩ := bind_eq_ok_iff.1 h
  obtain ⟨topic', htopic', hs⟩ := bind_eq_ok_iff.1 hs
  obtain rfl := Except.ok.inj (htopic.symm.trans htopic')
  obtain ⟨containers, hcontainers, -⟩ := bind_eq_ok_iff.1 hs
  constructor
  case complete =>
    intro hrefers t ht
    have hx : Resource.byIdentifier? v.reader x.node.identifier = .ok (some x) := by
      rcases hrefers with rfl | rfl
      · exact htarget
      · exact htarget
    have hnames : Names v c x := .reference hproperty hvalues hrefers hx
    have hmem := hnames.mem_membershipContainers hreads hfiled hfound hk htopic hcontainers
    exact (mem_membership_iff_declares htopic hcontainers h).2 ⟨(c, k), hmem, ht⟩
  case missed =>
    rintro hnot m t ⟨topic', containers', k', -, -, -, -, htopic', hcontainers', hc, -⟩
    have hx := View.foundIn_of_target? hreads hfiled htarget
    obtain ⟨value', hvalue, hrefers⟩ :=
      refersTo_of_mem_membershipContainers hv hfiled hx hother hproperty hcontainers' hc
    rw [hvalues, List.mem_singleton] at hvalue
    exact hnot (hvalue ▸ hrefers)
  case reference =>
    intro horderly
    constructor
    · rintro (rfl | rfl) path heq
      · cases heq
      · cases heq
    · have hsound := (Host.kept_of_orderly hr horderly).holds
        (Host.hasHeld_of_holds (Host.holds_current _ a.number))
      exact refersTo_of_target? hreads hsound htarget

/-- A run that leaves a basic container with a child, and a value by which it names a node. -/
def naming (value : Value) : List Host.Call :=
  let d (number : Nat) : Draws := ⟨fun j => toString number ++ ":" ++ toString j, .epoch⟩
  [.opening "default", .mutate 0 (d 1) (.addNode "/a" ntUnstructured),
    .mutate 0 (d 2) (.addNode "/c" ntUnstructured),
    .mutate 0 (d 3) (.addMixin "/c" ldpBasicContainer),
    .mutate 0 (d 4) (.addNode "/c/m" ntUnstructured),
    .mutate 0 (d 5) (.putProperty (.many "/c" ldpMembershipResource [value]))]

/-- The nodes of the run, named by IRIs. -/
def namingView (value : Value) : View :=
  .ofMap ⟨"http://localhost"⟩ ((Access.direct 0).reader ((Host.start "root").run (naming value)))

/-- A node of the run. -/
def named (path identifier : String) (mixins : List String) : Resource :=
  ⟨⟨path, identifier, ntUnstructured, mixins⟩, .container, "default"⟩

/-- A weak reference adds the child of the container. -/
theorem membership_complete_naming :
    let c := named "/c" "2:0" [ldpBasicContainer]
    let x := named "/a" "1:0" []
    let value : Value := .weakReference "1:0"
    (namingView value).target? value = .ok (some x) ∧ value.RefersTo x.node.identifier ∧
      AddsMembers (.start "root") (naming value) (namingView value) x c value
        (.iri "http://localhost/a")
        [⟨.iri "http://localhost/a", .iri Vocab.Ldp.member, .iri "http://localhost/c/m"⟩] := by
  intro c x value
  have htarget : (namingView value).target? value = .ok (some x) := by decide +kernel
  have hreader : (namingView value).reader =
      (Access.direct 0).reader ((Host.mk (.start "root") []).run (naming value)) := by
    rw [namingView, View.ofMap, Host.start]
  have hother : c ≠ x := by decide
  refine ⟨htarget, .inr rfl, membership_complete (Repository.isNew_start "root") (naming value)
    (.direct 0) hreader ?_ hother (k := .basic) ?_ (p := .many "/c" ldpMembershipResource [value])
    ?_ rfl htarget ?_ ?_⟩
  all_goals decide +kernel

/-- So it is not true of every value that leads to the resource that the container adds what it
declares: a path does not. -/
theorem not_mem_membership_of_path :
    ¬∀ (calls : List Host.Call) (v : View) (x c : Resource) (k : ContainerVariant) (p : Property)
        (value : Value) (topic : Term) (triples : List Triple),
      v.reader = (Access.direct 0).reader ((Host.start "root").run calls) →
      Resource.at? v.reader c.path = .ok (some c) → c ≠ x → c.variant v.reader = .ok (some k) →
      c.property v.reader ldpMembershipResource = .ok (some p) → p.values = [value] →
      v.target? value = .ok (some x) → v.subject x = .ok topic →
      (membership v x >>= fun s => s.collect v) = .ok triples →
      ∀ t, Declares v c topic t → t ∈ triples := by
  intro hall
  let value : Value := .path "/a"
  let c := named "/c" "2:0" [ldpBasicContainer]
  let m := named "/c/m" "4:0" []
  have hdeclares : Declares (namingView value) c (.iri "http://localhost/a")
      ⟨.iri "http://localhost/a", .iri Vocab.Ldp.member, .iri "http://localhost/c/m"⟩ :=
    ⟨.basic, Vocab.Ldp.member, [.ok m], m, .iri "http://localhost/c/m", by decide +kernel, .basic,
      by decide +kernel, List.mem_singleton_self _, .basic (by decide +kernel), rfl⟩
  have hmem := hall (naming value) (namingView value) (named "/a" "1:0" []) c .basic
    (.many "/c" ldpMembershipResource [value]) value (.iri "http://localhost/a") []
    (by rw [namingView, View.ofMap]) (by decide +kernel) (by decide) (by decide +kernel)
    (by decide +kernel) rfl (by decide +kernel) (by decide +kernel) (by decide +kernel) _ hdeclares
  exact nomatch hmem

end Description

end LinkedStore
