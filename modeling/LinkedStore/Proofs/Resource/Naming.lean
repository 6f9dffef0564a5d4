import LinkedStore.Proofs.Description.Typing
import LinkedStore.Proofs.Text.Cut

/-!
# The name of an IRI

An IRI is led back to a name through the namespaces that it begins with, as they are published.
The scan keeps the closest namespace that it has come by; since the prefixes are listed in their
order, the first of them is kept where several stand for one published namespace.

## Main definitions

* `Reader.Knows` : a session answers with the prefixes of a table.
* `Naming.Covers` : an IRI begins with a namespace and goes on behind it.
* `Naming.ClosestTo` : a prefix stands for the longest namespace that an IRI begins with.
* `Naming.NamesBack` : what the name of an IRI is, and where it leads.

## Main statements

* `Naming.closest_le` : what the scan keeps is the closest of all candidates.
* `Naming.exists_namesBack` : the name that is found is the name of the IRI.
-/

namespace LinkedStore

/-! ### Registered prefixes -/

/-- A session answers with the prefixes of a table, one by one and all in their order. -/
structure Reader.Knows (r : Reader) (table : Table String) : Prop where
  namespaces : r.namespaces = .ok table.toList
  namespaceOf : ∀ lead, r.namespaceOf lead = .ok table[lead]?

/-- An open session knows the registered prefixes. -/
theorem Session.knows_reader (r : Repository) {s : Session} (hs : s.live = true) :
    (s.reader r).Knows r.namespaces where
  namespaces := if_pos hs
  namespaceOf _ := if_pos hs

namespace Naming

open Vocab (publishedNamespace)
open Vocab.Name (separator)

variable {r : Reader} {namespaces : Table String} {ns ns' iri lead : String}
  {rest rest' : List Char}

/-! ### Namespaces and what is behind them -/

/-- An IRI begins with a namespace as it is published, which is not empty, and goes on behind it. -/
structure Covers (ns iri : String) (rest : List Char) : Prop where
  ne_empty : publishedNamespace ns ≠ ""
  toList_eq : iri.toList = (publishedNamespace ns).toList ++ rest
  proper : rest ≠ []

theorem localName?_eq_some_iff :
    localName? (publishedNamespace ns) iri = some rest ↔ Covers ns iri rest := by
  rw [localName?]
  by_cases hempty : publishedNamespace ns = ""
  · rw [if_pos hempty]
    exact ⟨nofun, fun h => absurd hempty h.ne_empty⟩
  · rw [if_neg hempty]
    cases rest with
    | nil =>
        refine ⟨fun h => ?_, fun h => absurd rfl h.proper⟩
        split at h <;> cases h
    | cons c rest =>
        constructor
        · intro h
          split at h
          case h_1 c' rest' hafter =>
            exact ⟨hempty, Option.some.inj h ▸ Text.after?_eq_some_iff.1 hafter, nofun⟩
          case h_2 => cases h
        · intro h
          simp only [Text.after?_eq_some_iff.2 h.toList_eq]

/-- Of two namespaces that an IRI begins with, the longer one leaves less behind it. -/
theorem Covers.length_lt_iff (h : Covers ns iri rest) (h' : Covers ns' iri rest') :
    (publishedNamespace ns').length < (publishedNamespace ns).length ↔
      rest.length < rest'.length := by
  have hlength := congrArg List.length (h.toList_eq.symm.trans h'.toList_eq)
  simp only [List.length_append, String.length_toList] at hlength
  omega

/-- Two namespaces that an IRI begins with are the same if they leave as much behind them. -/
theorem Covers.publishedNamespace_eq (h : Covers ns iri rest) (h' : Covers ns' iri rest')
    (hlength : rest.length = rest'.length) : publishedNamespace ns' = publishedNamespace ns :=
  String.toList_injective
    (List.append_inj_left' (h'.toList_eq.symm.trans h.toList_eq) hlength.symm)

/-! ### The scan -/

theorem closest_eq_none_iff {candidates : List (String × List Char)} :
    closest candidates = none ↔ candidates = [] := by
  cases candidates with
  | nil => exact ⟨fun _ => rfl, fun _ => rfl⟩
  | cons c candidates =>
      rw [closest]
      refine ⟨fun h => ?_, nofun⟩
      split at h
      · split at h <;> cases h
      · cases h

/-- What the scan keeps is a candidate, and the first of the closest ones. -/
theorem closest_le {candidates : List (String × List Char)} {c : String × List Char}
    (hordered : candidates.Pairwise fun a b => compare a.1 b.1 = .lt)
    (h : closest candidates = some c) :
    c ∈ candidates ∧ ∀ d ∈ candidates,
      c.2.length < d.2.length ∨ c.2.length = d.2.length ∧ (compare c.1 d.1).isLE = true := by
  induction candidates generalizing c with
  | nil => cases h
  | cons d candidates ih =>
      obtain ⟨hd, hcandidates⟩ := List.pairwise_cons.1 hordered
      have hself : (compare d.1 d.1).isLE = true := Std.ReflCmp.isLE_rfl
      rw [closest] at h
      split at h
      case h_1 lead' rest' hmore =>
        obtain ⟨hmem, hleast⟩ := ih hcandidates hmore
        split at h
        case isTrue hcloser =>
          obtain rfl := Option.some.inj h
          exact ⟨List.mem_cons_of_mem d hmem, List.forall_mem_cons.2 ⟨.inl hcloser, hleast⟩⟩
        case isFalse hfarther =>
          obtain rfl := Option.some.inj h
          refine ⟨List.mem_cons_self, List.forall_mem_cons.2 ⟨.inr ⟨rfl, hself⟩, fun e he => ?_⟩⟩
          -- The candidate in front comes before all others, so that it wins every tie.
          have hbefore : (compare d.1 e.1).isLE = true := by rw [hd e he]; rfl
          have hfarther : d.2.length ≤ rest'.length := Nat.le_of_not_lt hfarther
          rcases hleast e he with hlt | ⟨heq, -⟩
          · exact .inl (Nat.lt_of_le_of_lt hfarther hlt)
          · exact (Nat.lt_or_eq_of_le (hfarther.trans_eq heq)).imp_right fun h => ⟨h, hbefore⟩
      case h_2 hmore =>
        obtain rfl := Option.some.inj h
        obtain rfl := closest_eq_none_iff.1 hmore
        exact ⟨List.mem_cons_self, List.forall_mem_singleton.2 (.inr ⟨rfl, hself⟩)⟩

/-! ### The name -/

/-- A prefix stands for the longest of the registered namespaces that an IRI begins with; it is the
first of those that stand for that namespace as it is published. -/
structure ClosestTo (namespaces : Table String) (iri lead ns : String) (rest : List Char) :
    Prop where
  registered : namespaces[lead]? = some ns
  covers : Covers ns iri rest
  longest : ∀ {lead' ns' : String} {rest' : List Char},
    namespaces[lead']? = some ns' → Covers ns' iri rest' →
    (publishedNamespace ns').length < (publishedNamespace ns).length ∨
      publishedNamespace ns' = publishedNamespace ns ∧ (compare lead lead').isLE = true

/-- What the name of an IRI is: there is none if the IRI begins with no registered namespace, or
has nothing behind it.  Otherwise it is what stands behind the longest one, under its first prefix;
and it leads back to the IRI, unless what looks like a language is cut off. -/
structure NamesBack (r : Reader) (namespaces : Table String) (iri : String)
    (answer : Option String) : Prop where
  none_iff : answer = none ↔
    ∀ (lead ns : String) (rest : List Char), namespaces[lead]? = some ns → ¬Covers ns iri rest
  closest : ∀ {name}, answer = some name → ∃ lead ns rest, ClosestTo namespaces iri lead ns rest ∧
    name.toList = lead.toList ++ separator :: rest ∧
      ('@' ∉ rest → Naming.iri r name = .ok iri)

/-- The candidates for the name of an IRI: prefixes, with what stands behind their namespaces. -/
def candidates (namespaces : Table String) (iri : String) : List (String × List Char) :=
  namespaces.toList.filterMap fun (lead, ns) =>
    (localName? (publishedNamespace ns) iri).map fun rest => (lead, rest)

theorem mem_candidates {c : String × List Char} : c ∈ candidates namespaces iri ↔
    ∃ ns, namespaces[c.1]? = some ns ∧ Covers ns iri c.2 := by
  obtain ⟨lead, rest⟩ := c
  simp only [candidates, List.mem_filterMap, Prod.exists,
    Std.ExtTreeMap.mem_toList_iff_getElem?_eq_some, Option.map_eq_some_iff, Prod.mk.injEq,
    localName?_eq_some_iff]
  constructor
  · rintro ⟨lead, ns, hns, rest, hcovers, rfl, rfl⟩
    exact ⟨ns, hns, hcovers⟩
  · rintro ⟨ns, hns, hcovers⟩
    exact ⟨lead, ns, hns, rest, hcovers, rfl, rfl⟩

theorem pairwise_candidates (namespaces : Table String) (iri : String) :
    (candidates namespaces iri).Pairwise fun a b => compare a.1 b.1 = .lt := by
  refine List.Pairwise.filterMap _ ?_ Std.ExtTreeMap.ordered_keys_toList
  intro a b hab c hc d hd
  obtain ⟨_, -, rfl⟩ := Option.map_eq_some_iff.1 hc
  obtain ⟨_, -, rfl⟩ := Option.map_eq_some_iff.1 hd
  exact hab

/-- The scan keeps the prefix of the longest namespace. -/
theorem closestTo_of_closest (h : closest (candidates namespaces iri) = some (lead, rest)) :
    ∃ ns, ClosestTo namespaces iri lead ns rest := by
  obtain ⟨hmem, hleast⟩ := closest_le (pairwise_candidates namespaces iri) h
  obtain ⟨ns, hns, hcovers⟩ := mem_candidates.1 hmem
  refine ⟨ns, hns, hcovers, fun {lead' ns' rest'} hns' hcovers' => ?_⟩
  rcases hleast (lead', rest') (mem_candidates.2 ⟨ns', hns', hcovers'⟩) with hlt | ⟨heq, hle⟩
  · exact .inl ((hcovers.length_lt_iff hcovers').2 hlt)
  · exact .inr ⟨hcovers.publishedNamespace_eq hcovers' heq, hle⟩

/-- The name under a registered prefix leads back to the IRI. -/
theorem ClosestTo.iri_eq {name : String} (h : ClosestTo namespaces iri lead ns rest)
    (hr : r.Knows namespaces) (hlead : separator ∉ lead.toList)
    (hname : name.toList = lead.toList ++ separator :: rest) (hrest : '@' ∉ rest) :
    Naming.iri r name = .ok iri := by
  refine (iri_eq_ok_iff hr.namespaceOf).2
    ⟨lead.toList, rest, ns, hname, hlead, by rw [String.ofList_toList, h.registered], ?_⟩
  have hall : rest.takeWhile (· ≠ '@') = rest := Text.firstPiece_of_notMem hrest
  rw [hall]
  exact String.toList_injective (by simp [h.covers.toList_eq])

/-- **The name that is found is the name of the IRI**, whatever has been registered under prefixes
without the mark that ends a prefix. -/
theorem exists_namesBack (hr : r.Knows namespaces)
    (hleads : ∀ lead ∈ namespaces.keys, separator ∉ lead.toList) (iri : String) :
    ∃ answer, name? r iri = .ok answer ∧ NamesBack r namespaces iri answer := by
  have hanswer : name? r iri = .ok ((closest (candidates namespaces iri)).map fun c =>
      c.1 ++ String.ofList (separator :: c.2)) := by
    rw [name?, hr.namespaces]
    rfl
  refine ⟨_, hanswer, ?_, fun {name} hname => ?_⟩
  · rw [Option.map_eq_none_iff, closest_eq_none_iff, List.eq_nil_iff_forall_not_mem]
    simp only [mem_candidates, not_exists, not_and, Prod.forall]
    exact ⟨fun h lead ns rest => h lead rest ns, fun h lead rest ns => h lead ns rest⟩
  · obtain ⟨⟨lead, rest⟩, hclosest, rfl⟩ := Option.map_eq_some_iff.1 hname
    obtain ⟨ns, hns⟩ := closestTo_of_closest hclosest
    have hname : (lead ++ String.ofList (separator :: rest)).toList =
        lead.toList ++ separator :: rest := by
      rw [String.toList_append, String.toList_ofList]
    exact ⟨lead, ns, rest, hns, hname,
      hns.iri_eq hr (hleads lead (Table.mem_keys_iff.2 ⟨ns, hns.registered⟩)) hname⟩

/-- A repository with a namespace within another, which two prefixes stand for, and one of no
characters. -/
def nested : Repository :=
  ((((Repository.start "root").registerNamespace "twin" "http://e/").registerNamespace
    "ex" "http://e/").registerNamespace "inner" "http://e/i/").registerNamespace "void" ""

/-- What an open session on the repository answers. -/
def nestedReader : Reader := Session.reader nested ⟨Repository.defaultWorkspace, none, true⟩

theorem exists_namesBack_nested :
    nestedReader.Knows nested.namespaces ∧
      (∀ lead ∈ nested.namespaces.keys, separator ∉ lead.toList) ∧
      (∃ answer, name? nestedReader "http://e/x" = .ok answer ∧
        NamesBack nestedReader nested.namespaces "http://e/x" answer) ∧
      name? nestedReader "http://e/x" = .ok (some "ex:x") := by
  have hr : nestedReader.Knows nested.namespaces := Session.knows_reader nested rfl
  have hleads : ∀ lead ∈ nested.namespaces.keys, separator ∉ lead.toList := by decide +kernel
  exact ⟨hr, hleads, exists_namesBack hr hleads _, by decide +kernel⟩

end Naming

end LinkedStore
