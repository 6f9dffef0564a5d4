import LinkedStore.Proofs.Rdf.Canonical
import LinkedStore.Proofs.Stream.Items

/-!
# Streams of the same triples

Two streams are compared by draining them into sets.  Where both can be drained, the comparison has
an answer, which is whether the streams have one topic, declare the same prefixes and collect into
graphs of one canonical form.

## Main definitions

* `Stream.ComparesGraphs` : the comparison of two streams is one of their graphs.

## Main statements

* `Stream.graph_eq_ok_iff` : the graph of a stream that can be drained.
* `Stream.equivalent_of_collect` : the comparison of streams that can be drained.
* `Stream.comparesSets` : comparing sorted lists and comparing hash sets are the same.
-/

namespace LinkedStore.Stream

variable {ρ : Type} {r : ρ} {s t : Stream ρ} {left right : List Triple} {g h : Graph}

theorem graph_eq_ok_iff :
    s.graph r = .ok g ↔
      ∃ triples, s.collect r = .ok triples ∧ g = ⟨triples, s.topic, s.namespaces⟩ := by
  rw [graph]
  cases s.collect r with
  | error e => simp [bind, Except.bind]
  | ok triples => simp [bind, Except.bind, pure, Except.pure, eq_comm]

/-- Lists of triples are compared by their members. -/
theorem all_contains_iff :
    (left.all right.contains && right.all left.contains) = true ↔ ∀ t, t ∈ left ↔ t ∈ right := by
  simp only [Bool.and_eq_true, List.all_eq_true, List.contains_iff_mem]
  exact ⟨fun ⟨h, h'⟩ t => ⟨h t, h' t⟩, fun h => ⟨fun t => (h t).1, fun t => (h t).2⟩⟩

/-- The comparison of streams that can be drained. -/
theorem equivalent_of_collect (hs : s.collect r = .ok left) (ht : t.collect r = .ok right) :
    (s.equivalent r t).2 = .ok (decide (s.topic = t.topic ∧ s.namespaces = t.namespaces) &&
      (left.all right.contains && right.all left.contains)) := by
  rw [equivalent]
  by_cases hcontext : s.topic = t.topic ∧ s.namespaces = t.namespaces
  · have hdrain : s.drain r = ((s.drain r).1, left, none) :=
      Prod.ext rfl (drainFlow_eq_iff.2 (collect_eq_ok_iff.1 hs))
    have hdrain' : t.drain r = ((t.drain r).1, right, none) :=
      Prod.ext rfl (drainFlow_eq_iff.2 (collect_eq_ok_iff.1 ht))
    rw [if_neg (by simp [hcontext]), decide_eq_true hcontext, Bool.true_and, hdrain, hdrain']
  · rw [if_pos (by simpa only [not_and_or] using hcontext), decide_eq_false hcontext,
      Bool.false_and]

/-- The comparison of two streams is one of their graphs. -/
structure ComparesGraphs (r : ρ) (s t : Stream ρ) (g h : Graph) : Prop where
  /-- The canonical forms of the graphs are compared. -/
  equivalent_eq : (s.equivalent r t).2 = .ok (decide (s.topic = t.topic ∧
    s.namespaces = t.namespaces ∧ g.canonical.triples = h.canonical.triples))
  /-- Hash sets may be compared as well, whatever the hasher is. -/
  equivalent_eq_same (hash : List HasherCall → UInt64) : (s.equivalent r t).2 =
    .ok (decide (s.topic = t.topic ∧ s.namespaces = t.namespaces) &&
      HashSet.same hash (HashSet.collect hash g.triples) (HashSet.collect hash h.triples))

theorem comparesGraphs (hs : s.graph r = .ok g) (ht : t.graph r = .ok h) :
    ComparesGraphs r s t g h := by
  obtain ⟨left, hleft, rfl⟩ := graph_eq_ok_iff.1 hs
  obtain ⟨right, hright, rfl⟩ := graph_eq_ok_iff.1 ht
  have hequivalent := equivalent_of_collect hleft hright
  constructor
  · rw [hequivalent, Except.ok.injEq, Bool.eq_iff_iff, Bool.and_eq_true, all_contains_iff,
      decide_eq_true_iff, decide_eq_true_iff, (keepsSets _ _).eq_iff, and_assoc]
  · intro hash
    rw [hequivalent, Except.ok.injEq]
    refine congrArg _ (Bool.eq_iff_iff.2 ?_)
    rw [all_contains_iff, HashSet.same_collect_iff]

/-- **Sorted lists and hash sets compare alike.**  Values, terms and triples are ordered totally,
and equality is the one used for hashing; canonical forms of graphs are equal just if their triples
are; and streams that can be drained are compared as the canonical forms of their graphs are. -/
theorem comparesSets : OrdersTerms ∧ (∀ g h : Graph, KeepsSets g h) ∧
    ∀ {ρ : Type} {r : ρ} {s t : Stream ρ} {g h : Graph}, s.graph r = .ok g → t.graph r = .ok h →
      ComparesGraphs r s t g h :=
  ⟨ordersTerms, keepsSets, comparesGraphs⟩

/-- A measurement, its number being given by the word. -/
def measured (bits : UInt64) : Triple :=
  ⟨.iri "http://localhost/rest/a", .iri Vocab.Ldp.member, .double ⟨bits⟩⟩

/-- No number twice, and both zeros. -/
def repeated : Stream Unit :=
  ofTriples (.iri "http://localhost/rest/a")
    [measured 0x7ff8000000000000, measured 0, measured 0x8000000000000000,
      measured 0x7ff8000000000000]

/-- Both zeros, one of them twice, and no number. -/
def reordered : Stream Unit :=
  ofTriples (.iri "http://localhost/rest/a")
    [measured 0x8000000000000000, measured 0, measured 0, measured 0x7ff8000000000000]

/-- The two zeros are kept apart, what is no number equals itself, and repetition and order do not
matter. -/
theorem comparesSets_repeated : (repeated.equivalent () reordered).2 = .ok true ∧
    ∃ g h, repeated.graph () = .ok g ∧ reordered.graph () = .ok h ∧
      ComparesGraphs () repeated reordered g h ∧
      g.canonical.triples =
        [measured 0x8000000000000000, measured 0, measured 0x7ff8000000000000] ∧
      h.canonical.triples = g.canonical.triples :=
  ⟨by decide, _, _, rfl, rfl, comparesSets.2.2 rfl rfl, by decide, by decide⟩

end LinkedStore.Stream
