import LinkedStore.Stream.Basic
import Mathlib.Data.List.Forall2

/-!
# What streams hold

A stream that is drained without a failure has held nothing but triples.  What it has held is put
together from the parts of the stream, as the operations on streams put it together.

## Main definitions

* `Flow.Yields` : a flow holds given values and no failure.
* `Stream.Emits` : a stream holds a triple in front of its first failure.

## Main statements

* `Flow.yields_append`, `Flow.yields_each` : what the operations on flows yield.
* `Flow.Yields.items_followedBy`, `Stream.items_followedBy_of_failed` : what follows a flow that
  comes to its end, and one that fails.
* `Stream.collect_eq_ok_iff` : a stream that can be collected yields what is collected.
* `Stream.collect_flatMap_eq_ok_iff`, `Stream.mem_collect_flatMap_iff` : what the streams of a list
  of items yield.
* `Stream.exists_of_emits_flatMap` : what they emit, whether they fail or not.
-/

namespace LinkedStore

namespace Flow

variable {ρ α β : Type} {r : ρ}

/-- In surroundings that do not change, the flow holds given values and no failure. -/
def Yields (r : ρ) (flow : Flow ρ α) (values : List α) : Prop := flow.items r = values.map .ok

theorem yields_done {values : List α} : (done : Flow ρ α).Yields r values ↔ values = [] := by
  rw [Yields, items, eq_comm, List.map_eq_nil_iff]

@[simp] theorem items_ofList (items : List (Except Error α)) :
    (ofList items : Flow ρ α).items r = items := by
  induction items with
  | nil => rfl
  | cons item items ih => exact congrArg (item :: ·) ih

theorem yields_append {a b : Flow ρ α} {values : List α} :
    (a ++ b).Yields r values ↔
      ∃ first second, a.Yields r first ∧ b.Yields r second ∧ values = first ++ second := by
  rw [Yields, items_append]
  constructor
  · intro h
    obtain ⟨first, second, rfl, hfirst, hsecond⟩ := List.map_eq_append_iff.1 h.symm
    exact ⟨first, second, hfirst.symm, hsecond.symm, rfl⟩
  · rintro ⟨first, second, hfirst, hsecond, rfl⟩
    rw [List.map_append, hfirst, hsecond]

theorem yields_emit_ok {a : α} {rest : Flow ρ α} {values : List α} :
    (emit (.ok a) rest).Yields r values ↔ ∃ more, rest.Yields r more ∧ values = a :: more := by
  rw [Yields, items]
  cases values with
  | nil => simp
  | cons b more =>
      rw [List.map_cons, List.cons.injEq, Except.ok.injEq]
      constructor
      · rintro ⟨rfl, hmore⟩
        exact ⟨more, hmore, rfl⟩
      · rintro ⟨more', hmore, heq⟩
        obtain ⟨rfl, rfl⟩ := List.cons.inj heq
        exact ⟨rfl, hmore⟩

theorem not_yields_emit_error {e : Error} {rest : Flow ρ α} {values : List α} :
    ¬(emit (.error e) rest).Yields r values := by
  rw [Yields, items]
  cases values <;> simp

/-- What comes before the first failure is there without it. -/
theorem mem_items_of_untilFailure {flow : Flow ρ α} {item : Except Error α}
    (h : item ∈ flow.untilFailure.items r) : item ∈ flow.items r := by
  induction flow with
  | done => exact h
  | emit first rest ih =>
      cases first with
      | error e => exact List.mem_cons.2 ((List.mem_cons.1 h).imp id fun h => nomatch h)
      | ok a => exact List.mem_cons.2 ((List.mem_cons.1 h).imp id ih)
  | note mark rest ih => exact ih h
  | ask next ih => exact ih r h

/-- A flow that yields values has no failure to end at. -/
theorem yields_untilFailure {flow : Flow ρ α} {values : List α} :
    flow.untilFailure.Yields r values ↔ flow.Yields r values := by
  induction flow generalizing values with
  | done => rfl
  | emit item rest ih =>
      cases item with
      | error e =>
          exact iff_of_false not_yields_emit_error not_yields_emit_error
      | ok a =>
          rw [untilFailure, yields_emit_ok, yields_emit_ok]
          simp only [ih]
  | note mark rest ih => exact ih
  | ask next ih => exact ih r

/-- A flow that comes to its end is followed by what comes next. -/
theorem Yields.items_followedBy {flow : Flow ρ α} {values : List α} (h : flow.Yields r values)
    (next fallback : Flow ρ α) :
    (flow.followedBy next fallback).items r = values.map .ok ++ next.items r := by
  induction flow generalizing values with
  | done =>
      obtain rfl := yields_done.1 h
      rfl
  | emit item rest ih =>
      cases item with
      | error e => exact absurd h not_yields_emit_error
      | ok a =>
          obtain ⟨more, hmore, rfl⟩ := yields_emit_ok.1 h
          rw [followedBy, items, ih hmore, List.map_cons, List.cons_append]
  | note mark rest ih => exact ih h
  | ask next ih => exact ih r h

theorem yields_defer {build : ρ → Except Error (Flow ρ α)} {values : List α} :
    (defer build).Yields r values ↔ ∃ flow, build r = .ok flow ∧ flow.Yields r values := by
  rw [Yields, defer, items]
  cases build r with
  | ok flow => simp [Yields]
  | error e => exact iff_of_false not_yields_emit_error (by simp)

/-- A value that the flows of a list of items hold is held by the flow of some item. -/
theorem exists_of_mem_items_each {listed : List (Except Error β)} {f : β → Flow ρ α} {a : α}
    (h : .ok a ∈ (each listed f).items r) : ∃ b, .ok b ∈ listed ∧ .ok a ∈ (f b).items r := by
  induction listed with
  | nil => cases h
  | cons item listed ih =>
      have hlater (h : .ok a ∈ (each listed f).items r) :
          ∃ b, .ok b ∈ item :: listed ∧ .ok a ∈ (f b).items r := by
        obtain ⟨b, hb, ha⟩ := ih h
        exact ⟨b, List.mem_cons_of_mem item hb, ha⟩
      cases item with
      | error e => exact hlater ((List.mem_cons.1 h).resolve_left nofun)
      | ok b =>
          change .ok a ∈ ((f b).untilFailure ++ each listed f).items r at h
          rw [items_append, List.mem_append] at h
          rcases h with h | h
          · exact ⟨b, List.mem_cons_self, mem_items_of_untilFailure h⟩
          · exact hlater h

theorem exists_of_mem_items_defer {build : ρ → Except Error (Flow ρ α)} {a : α}
    (h : .ok a ∈ (defer build).items r) : ∃ flow, build r = .ok flow ∧ .ok a ∈ flow.items r := by
  rw [defer, items] at h
  cases hbuild : build r with
  | error e =>
      rw [hbuild] at h
      cases List.mem_singleton.1 h
  | ok flow =>
      rw [hbuild] at h
      exact ⟨flow, rfl, h⟩

/-- The flows of a list of items yield their parts, one after the other. -/
theorem yields_each {listed : List (Except Error β)} {f : β → Flow ρ α} {values : List α} :
    (each listed f).Yields r values ↔
      ∃ members parts, listed = members.map .ok ∧
        List.Forall₂ (fun b part => (f b).Yields r part) members parts ∧
        values = parts.flatten := by
  induction listed generalizing values with
  | nil =>
      change (done : Flow ρ α).Yields r values ↔ _
      rw [yields_done]
      constructor
      · rintro rfl
        exact ⟨[], [], rfl, .nil, rfl⟩
      · rintro ⟨members, parts, hmembers, hparts, rfl⟩
        obtain rfl : members = [] := List.map_eq_nil_iff.1 hmembers.symm
        cases hparts
        rfl
  | cons item listed ih =>
      cases item with
      | error e =>
          refine iff_of_false not_yields_emit_error ?_
          rintro ⟨members, -, hmembers, -⟩
          cases members <;> simp at hmembers
      | ok b =>
          change ((f b).untilFailure ++ each listed f).Yields r values ↔ _
          rw [yields_append]
          simp only [yields_untilFailure, ih]
          constructor
          · rintro ⟨part, -, hpart, ⟨members, parts, rfl, hparts, rfl⟩, rfl⟩
            exact ⟨b :: members, part :: parts, rfl, .cons hpart hparts, rfl⟩
          · rintro ⟨members, parts, hmembers, hparts, rfl⟩
            cases hparts with
            | nil => exact nomatch hmembers
            | @cons c part members parts hpart hparts =>
                rw [List.map_cons, List.cons.injEq, Except.ok.injEq] at hmembers
                obtain ⟨rfl, rfl⟩ := hmembers
                exact ⟨part, _, hpart, ⟨members, parts, rfl, hparts, rfl⟩, rfl⟩

end Flow

namespace Stream

variable {ρ β : Type} {r : ρ} {s : Stream ρ} {triples : List Triple}

theorem drainFlow_eq_iff {flow : Flow ρ Triple} :
    (drainFlow r flow).2 = (triples, none) ↔ flow.Yields r triples := by
  induction flow generalizing triples with
  | done =>
      rw [Flow.yields_done]
      simp [drainFlow, eq_comm]
  | emit item rest ih =>
      cases item with
      | error e => exact iff_of_false (by simp [drainFlow]) Flow.not_yields_emit_error
      | ok t =>
          rw [Flow.yields_emit_ok]
          simp only [← ih, drainFlow]
          constructor
          · intro h
            obtain ⟨htriples, hfailure⟩ := Prod.mk.inj h
            exact ⟨_, Prod.ext rfl hfailure, htriples.symm⟩
          · rintro ⟨more, hmore, rfl⟩
            obtain ⟨hmore, hfailure⟩ := Prod.mk.inj hmore
            rw [hmore, hfailure]
  | note mark rest ih => exact ih
  | ask next ih => exact ih r

/-- A flow that fails is followed by the fallback. -/
theorem items_followedBy_of_failed {flow : Flow ρ Triple} {e : Error}
    (h : (drainFlow r flow).2 = (triples, some e)) (next fallback : Flow ρ Triple) :
    (flow.followedBy next fallback).items r =
      triples.map .ok ++ .error e :: fallback.items r := by
  induction flow generalizing triples with
  | done => simp [drainFlow] at h
  | emit item rest ih =>
      cases item with
      | error e' =>
          obtain ⟨rfl, heq⟩ := Prod.mk.inj h
          obtain rfl := Option.some.inj heq
          rfl
      | ok t =>
          obtain ⟨rfl, hfailure⟩ := Prod.mk.inj h
          rw [Flow.followedBy, Flow.items, ih (Prod.ext rfl hfailure), List.map_cons,
            List.cons_append]
  | note mark rest ih => exact ih h
  | ask next ih => exact ih r h

/-- A stream that can be collected yields what is collected. -/
theorem collect_eq_ok_iff : s.collect r = .ok triples ↔ s.remaining.Yields r triples := by
  rw [← drainFlow_eq_iff, collect, drain]
  obtain ⟨marks, collected, failure⟩ := drainFlow r s.remaining
  cases failure <;> simp

theorem collect_ofFlow_eq_ok_iff {topic : Term} {flow : Flow ρ Triple} :
    (ofFlow topic flow).collect r = .ok triples ↔ flow.Yields r triples := by
  rw [collect_eq_ok_iff, remaining, ofFlow]
  exact Flow.yields_untilFailure

@[simp] theorem collect_ofTriples (topic : Term) (triples : List Triple) :
    (ofTriples topic triples).collect r = .ok triples := by
  rw [ofTriples, collect_ofFlow_eq_ok_iff, Flow.Yields, Flow.items_ofList]

@[simp] theorem collect_empty : (empty : Stream ρ).collect r = .ok [] := rfl

theorem yields_built {build : ρ → Except Error (Stream ρ)} {marks : List String} :
    (built build marks).Yields r triples ↔ ∃ s, build r = .ok s ∧ s.collect r = .ok triples := by
  rw [built, Flow.Yields, Flow.items_foldr_note]
  refine Flow.yields_defer.trans ?_
  cases build r with
  | error e => simp [Except.map]
  | ok s => simp [Except.map, collect_eq_ok_iff]

/-- The streams of a list of items yield their parts, one after the other. -/
theorem collect_flatMap_eq_ok_iff {topic : Term} {listed : List (Except Error β)}
    {f : β → ρ → Except Error (Stream ρ)} {marks : β → List String} :
    (flatMap topic listed f marks).collect r = .ok triples ↔
      ∃ members parts, listed = members.map .ok ∧
        List.Forall₂ (fun b part => ∃ s, f b r = .ok s ∧ s.collect r = .ok part)
          members parts ∧
        triples = parts.flatten := by
  rw [flatMap, collect_ofFlow_eq_ok_iff, Flow.yields_each]
  simp only [yields_built]

/-- The stream of every item can be collected by itself. -/
theorem exists_collect_of_mem {topic : Term} {listed : List (Except Error β)}
    {f : β → ρ → Except Error (Stream ρ)} {marks : β → List String}
    (h : (flatMap topic listed f marks).collect r = .ok triples)
    {b : β} (hb : .ok b ∈ listed) : ∃ s part, f b r = .ok s ∧ s.collect r = .ok part := by
  obtain ⟨members, parts, rfl, hparts, -⟩ := collect_flatMap_eq_ok_iff.1 h
  clear h
  induction hparts with
  | nil => cases hb
  | cons hpart _ ih =>
      rcases List.mem_cons.1 hb with heq | hb
      · obtain rfl := Except.ok.inj heq
        obtain ⟨s, hs, hcollect⟩ := hpart
        exact ⟨s, _, hs, hcollect⟩
      · exact ih hb

/-- A triple that is collected is held by the stream of some item, and by no failing one. -/
theorem mem_collect_flatMap_iff {topic : Term} {listed : List (Except Error β)}
    {f : β → ρ → Except Error (Stream ρ)} {marks : β → List String}
    (h : (flatMap topic listed f marks).collect r = .ok triples)
    {t : Triple} :
    t ∈ triples ↔
      ∃ b, .ok b ∈ listed ∧ ∃ s part, f b r = .ok s ∧ s.collect r = .ok part ∧ t ∈ part := by
  obtain ⟨members, parts, rfl, hparts, rfl⟩ := collect_flatMap_eq_ok_iff.1 h
  clear h
  induction hparts with
  | nil => simp
  | @cons b part members parts hpart _ ih =>
      obtain ⟨s, hs, hcollect⟩ := hpart
      rw [List.flatten_cons, List.mem_append, ih, List.map_cons]
      constructor
      · rintro (ht | ⟨c, hc, hheld⟩)
        · exact ⟨b, List.mem_cons_self, s, part, hs, hcollect, ht⟩
        · exact ⟨c, List.mem_cons_of_mem _ hc, hheld⟩
      · rintro ⟨c, hc, s', part', hs', hcollect', ht⟩
        rcases List.mem_cons.1 hc with heq | hc
        · obtain rfl := Except.ok.inj heq
          obtain rfl := Except.ok.inj (hs.symm.trans hs')
          obtain rfl := Except.ok.inj (hcollect.symm.trans hcollect')
          exact .inl ht
        · exact .inr ⟨c, hc, s', part', hs', hcollect', ht⟩

/-! ### Single triples -/

/-- In surroundings that do not change, the stream emits a triple before it fails, if it fails. -/
def Emits (r : ρ) (s : Stream ρ) (t : Triple) : Prop := .ok t ∈ s.remaining.items r

theorem emits_iff_mem_collect {t : Triple} (h : s.collect r = .ok triples) :
    s.Emits r t ↔ t ∈ triples := by
  rw [Emits, collect_eq_ok_iff.1 h]
  exact List.mem_map_of_injective fun _ _ => Except.ok.inj

@[simp] theorem emits_ofTriples {topic : Term} {t : Triple} :
    (ofTriples topic triples).Emits r t ↔ t ∈ triples :=
  emits_iff_mem_collect (collect_ofTriples topic triples)

@[simp] theorem not_emits_empty {t : Triple} : ¬(empty : Stream ρ).Emits r t :=
  fun h => nomatch (emits_iff_mem_collect collect_empty).1 h

/-- A triple that is emitted is emitted by the stream of some item. -/
theorem exists_of_emits_flatMap {topic : Term} {listed : List (Except Error β)}
    {f : β → ρ → Except Error (Stream ρ)} {marks : β → List String} {t : Triple}
    (h : (flatMap topic listed f marks).Emits r t) :
    ∃ b, .ok b ∈ listed ∧ ∃ s, f b r = .ok s ∧ s.Emits r t := by
  obtain ⟨b, hb, ht⟩ := Flow.exists_of_mem_items_each (Flow.mem_items_of_untilFailure h)
  rw [built, Flow.items_foldr_note] at ht
  obtain ⟨flow, hflow, ht⟩ := Flow.exists_of_mem_items_defer ht
  cases hs : f b r with
  | error e =>
      rw [hs] at hflow
      cases hflow
  | ok s =>
      rw [hs] at hflow
      obtain rfl := Except.ok.inj hflow
      exact ⟨b, hb, s, hs, ht⟩

end Stream

end LinkedStore
