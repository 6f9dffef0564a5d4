import LinkedStore.Proofs.Rdf.Order
import LinkedStore.Rdf.Graph
import LinkedStore.Rdf.Hashing
import Mathlib.Data.List.Destutter
import Mathlib.Data.List.Perm.Subperm

/-!
# Sets of triples

A set of triples is had in two ways: as the canonical form of a graph, which is the triples sorted
and repeated neighbours dropped, and as a hash set, in which triples are found by their hash.  What
compares as equal agrees, and feeds a hasher with the same calls, so that both ways keep the same
triples apart.

## Main definitions

* `OrderedAsHashed` : an order is total, and equality in it is the one used for hashing.
* `OrdersTerms` : values, terms and triples are so ordered, texts by bytes and doubles by words.
* `KeepsSets` : canonical forms are equal, and hash sets the same, just if the triples are.

## Main statements

* `ascends_ascending`, `mem_ascending`, `ascending_eq_iff` : what an ascending list holds.
* `ascending_eq_destutter` : it is what sorting leaves when repeated neighbours are dropped.
* `HashSet.same_collect_iff` : hash sets are compared by their members, whatever the hasher is.
* `ordersTerms`, `keepsSets` : the laws.
-/

namespace LinkedStore

/-! ### Ascending lists -/

section Ascending

variable {α : Type} [Ord α] {x y : α} {l l' : List α}

/-- A list ascends strictly. -/
def Ascends (l : List α) : Prop := l.Pairwise fun x y => compare x y = .lt

theorem mem_insertAscending [Std.LawfulEqOrd α] : y ∈ insertAscending x l ↔ y = x ∨ y ∈ l := by
  induction l with
  | nil => simp [insertAscending]
  | cons z l ih =>
      rw [insertAscending]
      cases h : compare x z with
      | lt => simp
      | eq =>
          obtain rfl := Std.LawfulEqOrd.eq_of_compare h
          simp
      | gt => simp [ih, or_left_comm]

/-- The ascending list of some items holds those items. -/
theorem mem_ascending [Std.LawfulEqOrd α] : x ∈ ascending l ↔ x ∈ l := by
  induction l with
  | nil => rfl
  | cons y l ih =>
      rw [ascending, List.foldr_cons, mem_insertAscending, List.mem_cons]
      exact or_congr Iff.rfl ih

theorem Ascends.nodup [Std.ReflOrd α] (hl : Ascends l) : l.Nodup :=
  hl.imp fun h heq => by
    rw [heq, Std.ReflOrd.compare_self] at h
    cases h

variable [Std.TransOrd α] [Std.LawfulEqOrd α]

theorem Ascends.insertAscending (hl : Ascends l) (x : α) : Ascends (insertAscending x l) := by
  induction l with
  | nil => exact List.pairwise_singleton _ _
  | cons z l ih =>
      obtain ⟨hz, hl'⟩ := List.pairwise_cons.1 hl
      rw [LinkedStore.insertAscending]
      cases h : compare x z with
      | lt =>
          refine List.pairwise_cons.2 ⟨List.forall_mem_cons.2 ⟨h, fun y hy => ?_⟩, hl⟩
          exact Std.TransCmp.lt_trans h (hz y hy)
      | eq => exact hl
      | gt =>
          refine List.pairwise_cons.2 ⟨fun y hy => ?_, ih hl'⟩
          rcases mem_insertAscending.1 hy with rfl | hy
          · exact Std.OrientedCmp.lt_of_gt h
          · exact hz y hy

theorem ascends_ascending (l : List α) : Ascends (ascending l) := by
  induction l with
  | nil => exact .nil
  | cons x l ih => exact ih.insertAscending x

/-- Strictly ascending lists with the same members are equal. -/
theorem Ascends.eq_of_mem_iff (hl : Ascends l) (hl' : Ascends l') (h : ∀ x, x ∈ l ↔ x ∈ l') :
    l = l' := by
  refine ((List.perm_ext_iff_of_nodup hl.nodup hl'.nodup).2 h).eq_of_pairwise ?_ hl hl'
  intro x y _ _ hxy hyx
  rw [Std.OrientedCmp.gt_of_lt hyx] at hxy
  cases hxy

theorem Ascends.ascending_eq (hl : Ascends l) : ascending l = l :=
  (ascends_ascending l).eq_of_mem_iff hl fun _ => mem_ascending

/-- **Ascending lists are equal if and only if they were made of the same items.** -/
theorem ascending_eq_iff : ascending l = ascending l' ↔ ∀ x, x ∈ l ↔ x ∈ l' := by
  refine ⟨fun h x => ?_, fun h => ?_⟩
  · rw [← mem_ascending, h, mem_ascending]
  · refine (ascends_ascending l).eq_of_mem_iff (ascends_ascending l') fun x => ?_
    rw [mem_ascending, mem_ascending, h]

/-- The ascending list is what sorting leaves when repeated neighbours are dropped. -/
theorem ascending_eq_destutter [DecidableEq α] (l : List α) : ascending l =
    (l.mergeSort fun x y => (compare x y).isLE).destutter (· ≠ ·) := by
  have htotal (x y : α) : ((compare x y).isLE || (compare y x).isLE) = true := by
    have hswap : compare y x = (compare x y).swap := Std.OrientedOrd.eq_swap
    rw [hswap]
    cases compare x y <;> rfl
  have hsorted : (l.mergeSort fun x y => (compare x y).isLE).Pairwise
      fun x y => (compare x y).isLE = true :=
    List.pairwise_mergeSort (fun _ _ _ => Std.TransCmp.isLE_trans) htotal l
  have : Std.Antisymm fun x y : α => (compare x y).isLE = true :=
    ⟨fun x y hxy hyx => Std.LawfulEqOrd.eq_of_compare (Std.OrientedCmp.isLE_antisymm hxy hyx)⟩
  have hdedup := hsorted.destutter_eq_dedup
  refine (ascends_ascending l).eq_of_mem_iff ?_ fun x => ?_
  · rw [hdedup]
    refine ((hsorted.sublist (List.dedup_sublist _)).and (List.nodup_dedup _)).imp ?_
    intro x y ⟨hle, hne⟩
    cases h : compare x y with
    | lt => rfl
    | eq => exact absurd (Std.LawfulEqOrd.eq_of_compare h) hne
    | gt => rw [h] at hle; cases hle
  · rw [hdedup, List.mem_dedup, List.mem_mergeSort, mem_ascending]

end Ascending

/-! ### Agreement and hashing -/

section Hashing

variable {u v : LiteralValue} {s t : Term} {calls calls' : List HasherCall}

theorem LiteralValue.agrees_iff : u.agrees v = true ↔ u = v := by
  rw [agrees, beq_iff_eq, Std.LawfulEqOrd.compare_eq_iff_eq]

/-- What can be told from what it feeds, whatever is fed behind it, can be told from that alone. -/
theorem inj_of_append_inj {α : Type} {fed : α → List HasherCall} {x y : α}
    (h : ∀ {calls calls' : List HasherCall},
      fed x ++ calls = fed y ++ calls' ↔ x = y ∧ calls = calls') : fed x = fed y ↔ x = y := by
  have hnone : fed x ++ [] = fed y ++ [] ↔ x = y ∧ ([] : List HasherCall) = [] := h
  simpa using hnone

theorem Double.bits_inj {x y : Double} : x.bits = y.bits ↔ x = y :=
  ⟨fun h => congrArg Double.mk h, congrArg Double.bits⟩

/-- A value can be told from what it feeds, whatever is fed behind it. -/
theorem LiteralValue.fed_append_inj :
    u.fed ++ calls = v.fed ++ calls' ↔ u = v ∧ calls = calls' := by
  cases u <;> cases v <;> simp [fed, rank, Double.bits_inj]

theorem LiteralValue.fed_inj : u.fed = v.fed ↔ u = v := inj_of_append_inj fed_append_inj

theorem Term.agrees_iff : s.agrees t = true ↔ s = t := by
  cases s <;> cases t <;> simp [agrees, LiteralValue.agrees_iff, and_assoc]

theorem Term.fedLanguage_append_inj {tag tag' : Option String} :
    fedLanguage tag ++ calls = fedLanguage tag' ++ calls' ↔ tag = tag' ∧ calls = calls' := by
  cases tag <;> cases tag' <;> simp [fedLanguage]

/-- A term can be told from what it feeds, whatever is fed behind it. -/
theorem Term.fed_append_inj : s.fed ++ calls = t.fed ++ calls' ↔ s = t ∧ calls = calls' := by
  cases s <;> cases t <;>
    simp [fed, rank, fedLanguage_append_inj, LiteralValue.fed_append_inj, and_assoc]

theorem Term.fed_inj : s.fed = t.fed ↔ s = t := inj_of_append_inj fed_append_inj

theorem Triple.agrees_iff {s t : Triple} : s.agrees t = true ↔ s = t := by
  obtain ⟨_, _, _⟩ := s
  obtain ⟨_, _, _⟩ := t
  simp [agrees, Term.agrees_iff, and_assoc]

theorem Triple.fed_inj {s t : Triple} : s.fed = t.fed ↔ s = t := by
  obtain ⟨_, _, _⟩ := s
  obtain ⟨_, _, _⟩ := t
  simp [fed, Term.fed_append_inj, Term.fed_inj]

end Hashing

namespace HashSet

variable {hash : List HasherCall → UInt64} {set left right : List Triple} {t : Triple}

/-- A set holds its members, whatever the hasher is. -/
theorem holds_iff : holds hash set t = true ↔ t ∈ set := by
  simp only [holds, List.any_eq_true, Bool.and_eq_true, beq_iff_eq, Triple.agrees_iff]
  constructor
  · rintro ⟨member, hmember, -, rfl⟩
    exact hmember
  · exact fun ht => ⟨t, ht, rfl, rfl⟩

theorem collect_append_singleton (hash : List HasherCall → UInt64) (triples : List Triple)
    (last : Triple) : collect hash (triples ++ [last]) =
      if last ∈ collect hash triples then collect hash triples
      else collect hash triples ++ [last] := by
  have hfold : collect hash (triples ++ [last]) =
      if holds hash (collect hash triples) last then collect hash triples
      else collect hash triples ++ [last] := by
    rw [collect, List.foldl_append]
    rfl
  simp only [hfold, holds_iff]

/-- A hash set holds the triples of the list. -/
theorem mem_collect : t ∈ collect hash left ↔ t ∈ left := by
  induction left using List.reverseRecOn with
  | nil => rfl
  | append_singleton triples last ih =>
      rw [collect_append_singleton, List.mem_append, List.mem_singleton, ← ih]
      split
      case isTrue hlast => exact ⟨.inl, fun h => h.elim id fun h => h ▸ hlast⟩
      case isFalse => rw [List.mem_append, List.mem_singleton]

/-- A hash set holds no triple twice. -/
theorem nodup_collect (hash : List HasherCall → UInt64) (triples : List Triple) :
    (collect hash triples).Nodup := by
  induction triples using List.reverseRecOn with
  | nil => exact .nil
  | append_singleton triples last ih =>
      rw [collect_append_singleton]
      split
      case isTrue => exact ih
      case isFalse hlast =>
        exact List.nodup_append.2 ⟨ih, List.nodup_singleton _, fun t ht u hu => by
          rw [List.mem_singleton.1 hu]
          exact fun heq => hlast (heq ▸ ht)⟩

/-- **Hash sets are the same if and only if they were made of the same triples**, whatever the
hasher is. -/
theorem same_collect_iff : same hash (collect hash left) (collect hash right) = true ↔
    ∀ t, t ∈ left ↔ t ∈ right := by
  have hleft := nodup_collect hash left
  have hright := nodup_collect hash right
  simp only [same, Bool.and_eq_true, beq_iff_eq, List.all_eq_true, holds_iff]
  constructor
  · rintro ⟨hlength, hsubset⟩ t
    have hperm := (List.subperm_of_subset hleft hsubset).perm_of_length_le hlength.ge
    rw [← mem_collect, hperm.mem_iff, mem_collect]
  · intro h
    have hperm : (collect hash left).Perm (collect hash right) :=
      (List.perm_ext_iff_of_nodup hleft hright).2 fun t => by rw [mem_collect, mem_collect, h]
    exact ⟨hperm.length_eq, fun t => hperm.mem_iff.1⟩

end HashSet

/-! ### The laws -/

/-- The order of some kind of values is total, and what is equal in it is what agrees, and what
feeds a hasher with the same calls. -/
structure OrderedAsHashed {α : Type} [Ord α] (agrees : α → α → Bool) (fed : α → List HasherCall) :
    Prop where
  swap (x y : α) : compare y x = (compare x y).swap
  trans (x y z : α) : (compare x y).isLE → (compare y z).isLE → (compare x z).isLE
  eq_iff (x y : α) : compare x y = .eq ↔ x = y
  agrees_iff (x y : α) : agrees x y = true ↔ compare x y = .eq
  fed_iff (x y : α) : fed x = fed y ↔ compare x y = .eq

theorem OrderedAsHashed.of_eq_iff {α : Type} [Ord α] [Std.TransOrd α] [Std.LawfulEqOrd α]
    {agrees : α → α → Bool} {fed : α → List HasherCall}
    (hagrees : ∀ x y, agrees x y = true ↔ x = y) (hfed : ∀ x y, fed x = fed y ↔ x = y) :
    OrderedAsHashed agrees fed where
  swap _ _ := Std.OrientedOrd.eq_swap
  trans _ _ _ := Std.TransCmp.isLE_trans
  eq_iff _ _ := Std.LawfulEqOrd.compare_eq_iff_eq
  agrees_iff x y := by rw [hagrees, Std.LawfulEqOrd.compare_eq_iff_eq]
  fed_iff x y := by rw [hfed, Std.LawfulEqOrd.compare_eq_iff_eq]

/-- How values, terms and triples are ordered. -/
structure OrdersTerms : Prop where
  values : OrderedAsHashed LiteralValue.agrees LiteralValue.fed
  terms : OrderedAsHashed Term.agrees Term.fed
  triples : OrderedAsHashed Triple.agrees Triple.fed
  /-- Texts are ordered by their bytes. -/
  texts (s s' : String) :
    compare (LiteralValue.string s) (.string s') = compare (Text.encode s) (Text.encode s')
  blanks (label label' : String) :
    compare (Term.blank label) (.blank label') = compare (Text.encode label) (Text.encode label')
  iris (i i' : String) : compare (Term.iri i) (.iri i') = compare (Text.encode i) (Text.encode i')
  literals (d d' : String) (l l' : Option String) (v v' : LiteralValue) :
    compare (Term.literal d l v) (.literal d' l' v') =
      (compare (Text.encode d) (Text.encode d')).then
        ((compare (l.map Text.encode) (l'.map Text.encode)).then (compare v v'))
  /-- Doubles are ordered by their words in the total order. -/
  doubles (x y : Double) : compare (LiteralValue.double x) (.double y) = x.totalOrder y
  /-- A lesser number comes first. -/
  numbers (x y : Double) :
    x.scaled < y.scaled → compare (LiteralValue.double x) (.double y) = .lt
  /-- What is no number comes outside of all numbers, on the side of its sign. -/
  notNumbers (x y : Double) : x.isNaN = false → y.isNaN = true →
    compare (LiteralValue.double x) (.double y) = if y.isNegative then .gt else .lt

/-- **What compares as equal is equal, agrees and is hashed alike.** -/
theorem ordersTerms : OrdersTerms where
  values := .of_eq_iff (fun _ _ => LiteralValue.agrees_iff) (fun _ _ => LiteralValue.fed_inj)
  terms := .of_eq_iff (fun _ _ => Term.agrees_iff) (fun _ _ => Term.fed_inj)
  triples := .of_eq_iff (fun _ _ => Triple.agrees_iff) (fun _ _ => Triple.fed_inj)
  texts s s' := (Text.compare_encode s s').symm
  blanks label label' := (Text.compare_encode label label').symm
  iris i i' := (Text.compare_encode i i').symm
  literals d d' l l' v v' := by
    have hlanguage : compare (l.map Text.encode) (l'.map Text.encode) = compare l l' := by
      cases l <;> cases l' <;> first
        | rfl
        | exact Text.compare_encode _ _
    rw [Text.compare_encode, hlanguage]
    rfl
  doubles := Double.compare_orderKey
  numbers _ _ h := Int.compare_eq_lt.2 (Double.orderKey_lt_of_scaled_lt h)
  notNumbers x y hx hy := by
    have h := Double.orderKey_lt_of_isNaN hx hy
    change compare x.orderKey y.orderKey = _
    by_cases hsign : y.isNegative = true
    · rw [if_pos hsign] at h ⊢
      exact Int.compare_eq_gt.2 h
    · rw [if_neg hsign] at h ⊢
      exact Int.compare_eq_lt.2 h

/-- What the canonical forms of two graphs are. -/
structure KeepsSets (g h : Graph) : Prop where
  ascends : Ascends g.canonical.triples
  mem_iff (t : Triple) : t ∈ g.canonical.triples ↔ t ∈ g.triples
  /-- The triples are sorted, and then those that agree with the one in front are dropped. -/
  sorted : g.canonical.triples =
    (g.triples.mergeSort fun s t => (compare s t).isLE).destutter fun s t => ¬s.agrees t = true
  canonical_canonical : g.canonical.canonical = g.canonical
  eq_iff : g.canonical.triples = h.canonical.triples ↔ ∀ t, t ∈ g.triples ↔ t ∈ h.triples
  /-- Hash sets of the triples are the same just if the canonical forms are equal. -/
  same_iff (hash : List HasherCall → UInt64) :
    HashSet.same hash (HashSet.collect hash g.triples) (HashSet.collect hash h.triples) = true ↔
      g.canonical.triples = h.canonical.triples

/-- **Canonical forms are equal, and hash sets the same, just if the triples are.** -/
theorem keepsSets (g h : Graph) : KeepsSets g h where
  ascends := ascends_ascending _
  mem_iff _ := mem_ascending
  sorted := by
    simp only [Triple.agrees_iff]
    exact ascending_eq_destutter g.triples
  canonical_canonical := congrArg (fun triples => { g with triples })
    (ascends_ascending g.triples).ascending_eq
  eq_iff := ascending_eq_iff
  same_iff _ := HashSet.same_collect_iff.trans ascending_eq_iff.symm

end LinkedStore
