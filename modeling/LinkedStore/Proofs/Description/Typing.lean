import LinkedStore.Description.Typing
import LinkedStore.Proofs.Resource.TypeClosure
import LinkedStore.Proofs.Stream.Items

/-!
# The types that a resource states

A resource states the types in the closure of its declared ones, each by its IRI.  It fails if a
name in the closure has no IRI, because it has no prefix or one that is not registered.  Names that
differ may have the same IRI, which is stated once.

## Main definitions

* `Access.Serves` : a session answers what it is asked about types and prefixes.
* `Naming.Names`, `Naming.Nameless` : which IRI a name has, and when it has none.
* `Description.StatesTypes` : a resource states each IRI of a closure once, and fails if a name has
  none.
* `Description.ClosesTypes` : the closure of types is found, and is what resources state.

## Main statements

* `Naming.iri_eq_ok_iff`, `Naming.iri_eq_error_iff` : what is found out about a name.
* `Description.closesTypes_of_serves` : a session that answers closes types.
-/

namespace LinkedStore

/-! ### Sessions that answer -/

/-- The session at the end of a way is open, and nothing on the way refuses what it is asked about
types and prefixes. -/
def Access.Serves (h : Host) : Access → Prop
  | .direct number => (h.session number).live = true
  | .within _ inner => inner.Serves h
  | .faulty plan inner =>
      .nodeType ∉ plan.refused ∧ .namespaceOf ∉ plan.refused ∧ inner.Serves h

instance Access.decidableServes (h : Host) : (a : Access) → Decidable (a.Serves h)
  | .direct number => inferInstanceAs (Decidable ((h.session number).live = true))
  | .within _ inner => decidableServes h inner
  | .faulty plan inner =>
      have := decidableServes h inner
      inferInstanceAs (Decidable
        (.nodeType ∉ plan.refused ∧ .namespaceOf ∉ plan.refused ∧ inner.Serves h))

theorem FaultPlan.guarding_of_notMem {α : Type} {plan : FaultPlan} {call : SessionCall}
    (h : call ∉ plan.refused) (answer : Except Error α) : plan.guarding call answer = answer :=
  if_neg (by simpa using h)

namespace Access

variable {h : Host} {a : Access}

theorem typeLinks_eq (h : Host) (a : Access) : (a.reader h).typeLinks =
    (h.repository.nodeTypes.values.flatMap NodeType.supertypes).length := by
  induction a with
  | direct number => rfl
  | within id inner ih => exact ih
  | faulty plan inner ih => exact ih

/-- A session that answers knows the registered types. -/
theorem Serves.reads (ha : a.Serves h) :
    TypeClosure.Reads (a.reader h) h.repository.nodeTypes where
  nodeType name := by
    induction a with
    | direct number => exact if_pos ha
    | within id inner ih => exact ih ha
    | faulty plan inner ih => exact (FaultPlan.guarding_of_notMem ha.1 _).trans (ih ha.2.2)
  typeLinks := typeLinks_eq h a

/-- A session that answers knows the registered prefixes. -/
theorem Serves.namespaceOf_eq (ha : a.Serves h) (lead : String) :
    (a.reader h).namespaceOf lead = .ok h.repository.namespaces[lead]? := by
  induction a with
  | direct number => exact if_pos ha
  | within id inner ih => exact ih ha
  | faulty plan inner ih => exact (FaultPlan.guarding_of_notMem ha.2.1 _).trans (ih ha.2.2)

end Access

/-! ### The IRI of a name -/

namespace Naming

open Vocab.Name (separator)

/-- A name has an IRI: the namespace of its prefix, and the local name up to a language. -/
def Names (namespaces : Table String) (name iri : String) : Prop :=
  ∃ lead rest ns, name.toList = lead ++ separator :: rest ∧ separator ∉ lead ∧
    namespaces[String.ofList lead]? = some ns ∧
    iri = Vocab.publishedNamespace ns ++ String.ofList (rest.takeWhile (· ≠ '@'))

/-- A name has no IRI: it has no prefix, or its prefix is not registered. -/
def Nameless (namespaces : Table String) (name : String) : Prop :=
  separator ∉ name.toList ∨ ∃ lead rest, name.toList = lead ++ separator :: rest ∧
    separator ∉ lead ∧ namespaces[String.ofList lead]? = none

variable {r : Reader} {namespaces : Table String} {name iri : String}

theorem iri_of_notMem (r : Reader) (hname : separator ∉ name.toList) :
    Naming.iri r name = .error (.malformedName name) := by
  rw [Naming.iri, split, Text.cutFirst_eq_none_iff.2 hname]
  rfl

section Registered

variable (hr : ∀ lead, r.namespaceOf lead = .ok namespaces[lead]?)

include hr

theorem iri_of_split {lead rest : List Char} (hname : name.toList = lead ++ separator :: rest)
    (hlead : separator ∉ lead) : Naming.iri r name =
      match namespaces[String.ofList lead]? with
      | some ns => .ok (Vocab.publishedNamespace ns ++ String.ofList (rest.takeWhile (· ≠ '@')))
      | none => .error (.unregisteredPrefix (String.ofList lead) name) := by
  rw [Naming.iri, split, Text.cutFirst_eq_some_iff.2 ⟨hname, hlead⟩]
  simp only [bind, Except.bind, hr, String.toList_ofList]
  cases namespaces[String.ofList lead]? <;> rfl

/-- The IRI that is found is the IRI that the name has. -/
theorem iri_eq_ok_iff : Naming.iri r name = .ok iri ↔ Names namespaces name iri := by
  constructor
  · intro h
    by_cases hname : separator ∈ name.toList
    · obtain ⟨lead, rest, hsplit, hlead⟩ := List.eq_append_cons_of_mem hname
      rw [iri_of_split hr hsplit hlead] at h
      cases hns : namespaces[String.ofList lead]? with
      | none => rw [hns] at h; cases h
      | some ns =>
          rw [hns] at h
          exact ⟨lead, rest, ns, hsplit, hlead, hns, (Except.ok.inj h).symm⟩
    · rw [iri_of_notMem r hname] at h
      cases h
  · rintro ⟨lead, rest, ns, hsplit, hlead, hns, rfl⟩
    rw [iri_of_split hr hsplit hlead, hns]

/-- Finding an IRI fails if the name has none. -/
theorem iri_eq_error_iff : (∃ e, Naming.iri r name = .error e) ↔ Nameless namespaces name := by
  constructor
  · rintro ⟨e, h⟩
    by_cases hname : separator ∈ name.toList
    · obtain ⟨lead, rest, hsplit, hlead⟩ := List.eq_append_cons_of_mem hname
      rw [iri_of_split hr hsplit hlead] at h
      cases hns : namespaces[String.ofList lead]? with
      | none => exact .inr ⟨lead, rest, hsplit, hlead, hns⟩
      | some ns => rw [hns] at h; cases h
    · exact .inl hname
  · rintro (hname | ⟨lead, rest, hsplit, hlead, hns⟩)
    · exact ⟨_, iri_of_notMem r hname⟩
    · rw [iri_of_split hr hsplit hlead, hns]
      exact ⟨_, rfl⟩

end Registered

end Naming

/-! ### What is stated -/

namespace Description

variable {h : Host} {a : Access} {v : View} {x : Resource} {topic : Term}
  {declared closure : List String}

/-- A resource states that it has the types in a closure: it fails if a name has no IRI, and states
each IRI once otherwise, in the order in which they are first come by. -/
structure StatesTypes (v : View) (namespaces : Table String) (topic : Term)
    (closure : List String) (x : Resource) : Prop where
  fails_iff : (∃ e, types v x = .error e) ↔ ∃ name ∈ closure, Naming.Nameless namespaces name
  exact : ∀ {s : Stream View}, types v x = .ok s → s.topic = some topic ∧ ∃ iris triples,
    List.Forall₂ (Naming.Names namespaces) closure iris ∧ s.collect v = .ok triples ∧
      triples = iris.eraseDups.map (typed topic) ∧ triples.Nodup ∧
      ∀ t, t ∈ triples ↔ ∃ name ∈ closure, ∃ iri, Naming.Names namespaces name iri ∧
        t = ⟨topic, .iri Vocab.Rdf.type, .iri iri⟩

/-- Through a session, the closure of every list of declared types is found, also by a queue that
may be worked off in more steps, and it is what each resource states that declares the list. -/
structure ClosesTypes (h : Host) (a : Access) : Prop where
  closes : ∀ declared, ∃ closure, TypeClosure.close (a.reader h) declared = .ok closure ∧
    TypeClosure.ClosesUp (TypeClosure.registered h.repository.nodeTypes) declared closure ∧
    ∀ steps, (TypeClosure.fresh [] declared).length + (a.reader h).typeLinks ≤ steps →
      TypeClosure.closeQueue (a.reader h) steps (TypeClosure.fresh [] declared)
        (TypeClosure.fresh [] declared) = .ok closure
  states : ∀ {v : View}, v.reader = a.reader h → ∀ {x : Resource} {declared : List String}
    {topic : Term}, x.node.declaredTypes v.reader = .ok declared → v.subject x = .ok topic →
      ∃ closure,
        TypeClosure.ClosesUp (TypeClosure.registered h.repository.nodeTypes) declared closure ∧
        StatesTypes v h.repository.namespaces topic closure x

theorem typed_injective (topic : Term) : Function.Injective (typed topic) :=
  fun _ _ heq => Term.iri.inj (Triple.mk.inj heq).2.2

/-- The IRIs of a resource are those of the names in its closure. -/
theorem typeIris_eq_ok_iff {namespaces : Table String}
    (hr : ∀ lead, v.reader.namespaceOf lead = .ok namespaces[lead]?)
    (hclosure : x.types v.reader = .ok closure) {distinct : List String} :
    typeIris v x = .ok distinct ↔ ∃ iris,
      List.Forall₂ (Naming.Names namespaces) closure iris ∧ iris.eraseDups = distinct := by
  rw [typeIris, hclosure]
  simp only [bind_eq_ok_iff, pure_eq_ok_iff, Except.ok.injEq, exists_eq_left', mapM_eq_ok_iff,
    Naming.iri_eq_ok_iff hr, TypeClosure.fresh_nil]

/-- Finding the IRIs of a resource fails if a name in its closure has none. -/
theorem typeIris_eq_error_iff {namespaces : Table String}
    (hr : ∀ lead, v.reader.namespaceOf lead = .ok namespaces[lead]?)
    (hclosure : x.types v.reader = .ok closure) :
    (∃ e, typeIris v x = .error e) ↔ ∃ name ∈ closure, Naming.Nameless namespaces name := by
  have hfails : (∃ e, typeIris v x = .error e) ↔
      ∃ e, closure.mapM (Naming.iri v.reader) = .error e := by
    rw [typeIris, hclosure]
    cases hiris : closure.mapM (Naming.iri v.reader) with
    | error e => simp [bind, Except.bind, hiris]
    | ok iris => simp [bind, Except.bind, hiris, pure, Except.pure]
  simp only [hfails, mapM_eq_error_iff, Naming.iri_eq_error_iff hr]

/-- What a resource states about its types follows from its closure. -/
theorem statesTypes {namespaces : Table String}
    (hr : ∀ lead, v.reader.namespaceOf lead = .ok namespaces[lead]?)
    (hclosure : x.types v.reader = .ok closure) (htopic : v.subject x = .ok topic) :
    StatesTypes v namespaces topic closure x where
  fails_iff := by
    rw [← typeIris_eq_error_iff hr hclosure, types, htopic]
    cases hiris : typeIris v x with
    | error e => simp [bind, Except.bind]
    | ok distinct => simp [bind, Except.bind, pure, Except.pure]
  exact := by
    intro s hs
    obtain ⟨topic', htopic', hs⟩ := bind_eq_ok_iff.1 hs
    obtain ⟨distinct, hdistinct, hs⟩ := bind_eq_ok_iff.1 hs
    obtain rfl := Except.ok.inj (htopic.symm.trans htopic')
    obtain rfl := Except.ok.inj hs
    obtain ⟨iris, hiris, rfl⟩ := (typeIris_eq_ok_iff hr hclosure).1 hdistinct
    have hmem {iri : String} :
        iri ∈ iris ↔ ∃ name ∈ closure, Naming.Names namespaces name iri := by
      have hmapped := mapM_eq_ok_iff.2 (hiris.imp fun _ _ => (Naming.iri_eq_ok_iff hr).2)
      simp only [mem_iff_of_mapM_eq_ok hmapped, Naming.iri_eq_ok_iff hr]
    refine ⟨rfl, iris, _, hiris, Stream.collect_ofTriples _ _, rfl,
      (nodup_eraseDups iris).map (typed_injective topic), fun t => ?_⟩
    simp only [List.mem_map, List.mem_eraseDups, hmem]
    constructor
    · rintro ⟨iri, ⟨name, hname, hiri⟩, rfl⟩
      exact ⟨name, hname, iri, hiri, rfl⟩
    · rintro ⟨name, hname, iri, hiri, rfl⟩
      exact ⟨iri, ⟨name, hname, hiri⟩, rfl⟩

/-- **A session that answers closes types**, whatever has been registered. -/
theorem closesTypes_of_serves (ha : a.Serves h) : ClosesTypes h a where
  closes := TypeClosure.exists_closesUp ha.reads
  states := by
    intro v hv x declared topic hdeclared htopic
    obtain ⟨closure, hclose, hcloses, -⟩ := TypeClosure.exists_closesUp ha.reads declared
    have hclosure : x.types v.reader = .ok closure :=
      bind_eq_ok_iff.2 ⟨declared, hdeclared, hv ▸ hclose⟩
    exact ⟨closure, hcloses, statesTypes (hv ▸ ha.namespaceOf_eq) hclosure htopic⟩

/-- A repository whose types lie above one another in a circle, one of them unregistered, and two
of whose prefixes have one namespace. -/
def tangled : Repository :=
  (((((Repository.start "root").registerNamespace "ex" "http://e/").registerNamespace
    "twin" "http://e/").registerNodeType ⟨"ex:A", ["ex:B", "ex:C"], true⟩).registerNodeType
      ⟨"ex:B", ["ex:A", "ex:D"], true⟩).registerNodeType ⟨"ex:C", ["ex:D", "twin:A"], true⟩

/-- A session on the repository, with a node that declares one of the types. -/
def tangledHost : Host :=
  (Host.mk tangled []).run
    [.opening "default", .mutate 0 ⟨toString, .epoch⟩ (.addNode "/a" "ex:A")]

/-- The circle is gone through once, and the IRI that two names have is stated once. -/
theorem closesTypes_tangled : ClosesTypes tangledHost (.direct 0) ∧
    (let v : View := .ofMap ⟨"http://localhost"⟩ ((Access.direct 0).reader tangledHost)
    do
      let x ← Resource.require v.reader "/a"
      let triples ← (← types v x).collect v
      pure (← x.types v.reader, triples.map Triple.object)) =
    Except.ok (ε := Error) (["ex:A", "ex:B", "ex:C", "ex:D", "twin:A"],
      [.iri "http://e/A", .iri "http://e/B", .iri "http://e/C", .iri "http://e/D"]) :=
  ⟨closesTypes_of_serves (by decide +kernel), by decide +kernel⟩

end Description

end LinkedStore
