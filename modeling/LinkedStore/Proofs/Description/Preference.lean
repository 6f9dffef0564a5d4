import LinkedStore.Description.Aspect

/-!
# Preferences as sets

The preferences of a client are two lists of IRIs, which are gone through one after the other, each
IRI switching aspects on or off.  What comes of them depends on which IRIs occur in the lists only:
an aspect is wanted if no omitted IRI is about it, and it is in the selection that was started from
or an included IRI is about it.  So omission wins, and neither the order of the IRIs nor their
repetition matters, nor do IRIs that are about no aspect.

## Main definitions

* `Selection.base` : the selection that the preferences start from.
* `Selection.Resolves` : a selection is the set that two lists of preferences describe.

## Main statements

* `Selection.includes_including`, `Selection.includes_omitting` : what one IRI does.
* `Selection.includes_foldl_including`, `Selection.includes_foldl_omitting` : what a list does.
* `Selection.includes_standard`, `Selection.includes_minimal` : where the preferences start from.
* `Selection.resolves_ofPreferences` : **preferences are resolved as sets, omission winning**.
-/

namespace LinkedStore

namespace Selection

variable {s t : Selection} {a : Aspect} {iri : String} {wanted unwanted : List String}

/-! ### Aspects one by one -/

@[simp] theorem includes_add {b : Aspect} :
    (s.add b).includes a = true ↔ a = b ∨ s.includes a = true := by
  simp [add]

@[simp] theorem includes_drop {b : Aspect} :
    (s.drop b).includes a = true ↔ a ≠ b ∧ s.includes a = true := by
  simp [drop]

theorem managed_foldl_add (aspects : List Aspect) : (aspects.foldl add s).managed = s.managed := by
  induction aspects generalizing s with
  | nil => rfl
  | cons b aspects ih => exact ih

theorem managed_foldl_drop (aspects : List Aspect) :
    (aspects.foldl drop s).managed = s.managed := by
  induction aspects generalizing s with
  | nil => rfl
  | cons b aspects ih => exact ih

theorem includes_foldl_add (aspects : List Aspect) :
    (aspects.foldl add s).includes a = true ↔ a ∈ aspects ∨ s.includes a = true := by
  induction aspects generalizing s with
  | nil => simp
  | cons b aspects ih =>
      rw [List.foldl_cons, ih, includes_add, List.mem_cons, or_assoc, or_left_comm]

theorem includes_foldl_drop (aspects : List Aspect) :
    (aspects.foldl drop s).includes a = true ↔ a ∉ aspects ∧ s.includes a = true := by
  induction aspects generalizing s with
  | nil => simp
  | cons b aspects ih =>
      rw [List.foldl_cons, ih, includes_drop, List.mem_cons, not_or, and_assoc, and_left_comm]

/-! ### One preference -/

/-- Including an IRI adds the aspects that it is about. -/
theorem includes_including : (s.including iri).includes a = true ↔
    a ∈ Aspect.ofPreference iri ∨ s.includes a = true :=
  includes_foldl_add _

/-- Omitting an IRI takes the aspects away that it is about. -/
theorem includes_omitting : (s.omitting iri).includes a = true ↔
    a ∉ Aspect.ofPreference iri ∧ s.includes a = true :=
  includes_foldl_drop _

theorem managed_including : (s.including iri).managed = true ↔
    s.managed = true ∨ iri = Vocab.Fedora.serverManaged := by
  rw [including, managed_foldl_add, Bool.or_eq_true, beq_iff_eq]

theorem managed_omitting : (s.omitting iri).managed = true ↔
    s.managed = true ∧ iri ≠ Vocab.Fedora.serverManaged := by
  rw [omitting, managed_foldl_drop, Bool.and_eq_true, bne_iff_ne]

/-! ### Lists of preferences -/

/-- The aspects of a selection after a list of inclusions. -/
theorem includes_foldl_including : (wanted.foldl including s).includes a = true ↔
    s.includes a = true ∨ ∃ iri ∈ wanted, a ∈ Aspect.ofPreference iri := by
  induction wanted generalizing s with
  | nil => simp
  | cons iri wanted ih =>
      simp only [List.foldl_cons, ih, includes_including, List.mem_cons, exists_eq_or_imp, or_assoc,
        or_left_comm]

/-- The aspects of a selection after a list of omissions. -/
theorem includes_foldl_omitting : (unwanted.foldl omitting s).includes a = true ↔
    (∀ iri ∈ unwanted, a ∉ Aspect.ofPreference iri) ∧ s.includes a = true := by
  induction unwanted generalizing s with
  | nil => simp
  | cons iri unwanted ih =>
      rw [List.foldl_cons, ih, includes_omitting, List.forall_mem_cons, and_assoc, and_left_comm]

/-- Inclusions never give up the triples that the repository maintains. -/
theorem managed_foldl_including (hs : s.managed = true) :
    (wanted.foldl including s).managed = true := by
  induction wanted generalizing s with
  | nil => exact hs
  | cons iri wanted ih => exact ih (managed_including.2 (.inl hs))

theorem managed_foldl_omitting : (unwanted.foldl omitting s).managed = true ↔
    s.managed = true ∧ Vocab.Fedora.serverManaged ∉ unwanted := by
  induction unwanted generalizing s with
  | nil => simp
  | cons iri unwanted ih =>
      rw [List.foldl_cons, ih, managed_omitting, List.mem_cons, not_or, and_assoc, ne_comm]

/-! ### Resolution -/

theorem includes_standard :
    standard.includes a = true ↔ a ≠ .references ∧ a ≠ .versions := by
  have heverything : everything.includes a = true := rfl
  rw [standard, includes_drop, includes_drop, and_iff_left heverything, and_comm]

theorem includes_minimal : minimal.includes a = true ↔
    a ∉ [Aspect.children, .membership, .isMemberOf, .hash, .blankNodes] ∧
      a ≠ .references ∧ a ≠ .versions := by
  rw [minimal, includes_foldl_drop, includes_standard]

/-- The selection that preferences start from. -/
def base (wanted : List String) : Selection :=
  if Vocab.Prefer.minimalContainer ∈ wanted then minimal else standard

theorem managed_base (wanted : List String) : (base wanted).managed = true := by
  unfold base
  split <;> rfl

theorem ofPreferences_eq (wanted unwanted : List String) :
    ofPreferences wanted unwanted =
      unwanted.foldl omitting (wanted.foldl including (base wanted)) := by
  simp only [ofPreferences, base, List.contains_iff_mem]

/-- A selection is the set that two lists of preferences describe: what is omitted is out, and what
remains is in the base or included. -/
structure Resolves (wanted unwanted : List String) (s : Selection) : Prop where
  includes_iff : ∀ a, s.includes a = true ↔
    (∀ iri ∈ unwanted, a ∉ Aspect.ofPreference iri) ∧
      ((base wanted).includes a = true ∨ ∃ iri ∈ wanted, a ∈ Aspect.ofPreference iri)
  managed_iff : s.managed = false ↔ Vocab.Fedora.serverManaged ∈ unwanted

/-- There is one selection that lists of preferences describe, whatever the order of their members
and however often they occur. -/
theorem Resolves.unique {wanted' unwanted' : List String} (hs : Resolves wanted unwanted s)
    (ht : Resolves wanted' unwanted' t) (hwanted : ∀ iri, iri ∈ wanted ↔ iri ∈ wanted')
    (hunwanted : ∀ iri, iri ∈ unwanted ↔ iri ∈ unwanted') : s = t := by
  have hbase : base wanted = base wanted' := by simp only [base, hwanted]
  ext a
  · rw [Bool.eq_iff_iff, hs.includes_iff, ht.includes_iff]
    simp only [hbase, hwanted, hunwanted]
  · have hsame : s.managed = false ↔ t.managed = false := by
      rw [hs.managed_iff, ht.managed_iff, hunwanted]
    exact Bool.not_inj ((Bool.coe_false_iff_false ..).1 hsame)

theorem resolves_foldl (wanted unwanted : List String) : Resolves wanted unwanted
    (unwanted.foldl omitting (wanted.foldl including (base wanted))) where
  includes_iff a := by rw [includes_foldl_omitting, includes_foldl_including]
  managed_iff := by
    rw [← Bool.not_eq_true, managed_foldl_omitting,
      and_iff_right (managed_foldl_including (managed_base wanted)), Classical.not_not]

/-- **Preferences are resolved as sets, and omission wins**: the selection is the set that the two
lists describe, so that lists with the same members give the same selection. -/
theorem resolves_ofPreferences (wanted unwanted : List String) :
    Resolves wanted unwanted (ofPreferences wanted unwanted) ∧
      ∀ wanted' unwanted', (∀ iri, iri ∈ wanted ↔ iri ∈ wanted') →
        (∀ iri, iri ∈ unwanted ↔ iri ∈ unwanted') →
        ofPreferences wanted unwanted = ofPreferences wanted' unwanted' := by
  have hresolves (wanted unwanted : List String) :
      Resolves wanted unwanted (ofPreferences wanted unwanted) :=
    ofPreferences_eq wanted unwanted ▸ resolves_foldl wanted unwanted
  exact ⟨hresolves wanted unwanted, fun wanted' unwanted' =>
    (hresolves wanted unwanted).unique (hresolves wanted' unwanted')⟩

/-- Preferences that are stated twice and in another order, among them one that is about nothing. -/
theorem resolves_ofPreferences_twice :
    ofPreferences
        [Vocab.Prefer.membership, Vocab.Prefer.minimalContainer, Vocab.Prefer.membership]
        [Vocab.Prefer.containment, "http://example.org/unknown", Vocab.Prefer.containment] =
      ofPreferences [Vocab.Prefer.minimalContainer, Vocab.Prefer.membership]
        ["http://example.org/unknown", Vocab.Prefer.containment] ∧
    (ofPreferences [Vocab.Prefer.minimalContainer, Vocab.Prefer.membership]
        ["http://example.org/unknown", Vocab.Prefer.containment]).aspects =
      [.model, .types, .properties, .parent, .membership, .isMemberOf, .namespaces] :=
  ⟨(resolves_ofPreferences _ _).2 _ _ (fun iri => by grind) (fun iri => by grind), by decide⟩

end Selection

end LinkedStore
