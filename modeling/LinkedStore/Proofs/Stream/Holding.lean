import LinkedStore.Proofs.Stream.Items

/-!
# What every item of a stream satisfies

A flow asks its surroundings how to go on, and these may be others at every pull.  A condition that
all items satisfy, whatever the surroundings are, is kept by the operations on flows, so that it
holds of all triples that a stream yields, however it is pulled.

## Main definitions

* `Flow.Holds` : all values of a flow satisfy a condition, in all surroundings of a kind.
* `Stream.pulls` : what a stream yields, each pull in surroundings of its own.
* `Stream.YieldsOnly` : all triples that a stream yields satisfy a condition.

## Main statements

* `Flow.Holds.append`, `Flow.Holds.followedBy`, `Flow.Holds.each`, `Flow.holds_defer` : the
  operations on flows.
* `Stream.Holds.flatMap`, `Stream.Holds.lazy`, `Stream.Holds.foldl_concat` : those on streams.
* `Stream.Holds.yieldsOnly` : what a stream holds is all that it yields.
-/

namespace LinkedStore

namespace Flow

variable {ρ α β : Type} {env : ρ → Prop} {P : α → Prop} {r : ρ}

/-- All values of the flow satisfy a condition, whatever the surroundings are that it asks, as long
as they are of a kind. -/
def Holds (env : ρ → Prop) (P : α → Prop) : Flow ρ α → Prop
  | done => True
  | emit item rest => (∀ a, item = .ok a → P a) ∧ rest.Holds env P
  | note _ rest => rest.Holds env P
  | ask next => ∀ r, env r → (next r).Holds env P

/-! ### Building flows -/

/-- A failure satisfies every condition. -/
theorem holds_emit_error {rest : Flow ρ α} (e : Error) (h : rest.Holds env P) :
    (emit (.error e) rest).Holds env P := ⟨nofun, h⟩

theorem holds_fail (e : Error) : (fail e : Flow ρ α).Holds env P := holds_emit_error e trivial

theorem holds_ofList {items : List (Except Error α)} (h : ∀ a, .ok a ∈ items → P a) :
    (ofList items : Flow ρ α).Holds env P := by
  induction items with
  | nil => trivial
  | cons item items ih =>
      exact ⟨fun a ha => h a (ha ▸ List.mem_cons_self),
        ih fun a ha => h a (List.mem_cons_of_mem item ha)⟩

theorem holds_defer {build : ρ → Except Error (Flow ρ α)}
    (h : ∀ r flow, env r → build r = .ok flow → flow.Holds env P) :
    (defer build).Holds env P := by
  intro r hr
  cases hbuild : build r with
  | ok flow => simpa only [hbuild] using h r flow hr hbuild
  | error e => simpa only [hbuild] using holds_fail e

theorem holds_deferEach {members : List β} {f : β → ρ → Except Error α}
    (h : ∀ b r a, env r → f b r = .ok a → P a) : (deferEach members f).Holds env P := by
  induction members with
  | nil => trivial
  | cons b members ih => exact fun r hr => ⟨fun a ha => h b r a hr ha, ih⟩

/-! ### Operations -/

namespace Holds

variable {a b : Flow ρ α}

theorem append (ha : a.Holds env P) (hb : b.Holds env P) : (a ++ b).Holds env P := by
  induction a with
  | done => exact hb
  | emit item rest ih => exact ⟨ha.1, ih ha.2⟩
  | note mark rest ih => exact ih ha
  | ask next ih => exact fun r hr => ih r (ha r hr)

theorem foldr_note (ha : a.Holds env P) (marks : List String) :
    (marks.foldr note a).Holds env P := by
  induction marks with
  | nil => exact ha
  | cons mark marks ih => exact ih

theorem filter (ha : a.Holds env P) (keep : α → Bool) (marks : α → List String) :
    (a.filter keep marks).Holds env P := by
  induction a with
  | done => trivial
  | emit item rest ih =>
      cases item with
      | error e => exact ⟨nofun, ih ha.2⟩
      | ok value =>
          refine Holds.foldr_note ?_ (marks value)
          split
          · exact ⟨ha.1, ih ha.2⟩
          · exact ih ha.2
  | note mark rest ih => exact ih ha
  | ask next ih => exact fun r hr => ih r (ha r hr)

theorem untilFailure (ha : a.Holds env P) : a.untilFailure.Holds env P := by
  induction a with
  | done => trivial
  | emit item rest ih =>
      cases item with
      | error e => exact ⟨nofun, trivial⟩
      | ok value => exact ⟨ha.1, ih ha.2⟩
  | note mark rest ih => exact ih ha
  | ask next ih => exact fun r hr => ih r (ha r hr)

theorem followedBy {next fallback : Flow ρ α} (ha : a.Holds env P) (hnext : next.Holds env P)
    (hfallback : fallback.Holds env P) : (a.followedBy next fallback).Holds env P := by
  induction a with
  | done => exact hnext
  | emit item rest ih =>
      cases item with
      | error e => exact ⟨nofun, hfallback⟩
      | ok value => exact ⟨ha.1, ih ha.2⟩
  | note mark rest ih => exact ih ha
  | ask next ih => exact fun r hr => ih r (ha r hr)

theorem each {items : List (Except Error β)} {f : β → Flow ρ α}
    (h : ∀ b, .ok b ∈ items → (f b).Holds env P) : (Flow.each items f).Holds env P := by
  induction items with
  | nil => trivial
  | cons item items ih =>
      have hrest := ih fun b hb => h b (List.mem_cons_of_mem item hb)
      cases item with
      | error e => exact ⟨nofun, hrest⟩
      | ok b => exact (h b List.mem_cons_self).untilFailure.append hrest

/-- One pull: the item satisfies the condition, and so does all that is left. -/
theorem pull (ha : a.Holds env P) (hr : env r) {item : Except Error α} {rest : Flow ρ α}
    (h : (a.pull r).2 = some (item, rest)) : (∀ a, item = .ok a → P a) ∧ rest.Holds env P := by
  induction a with
  | done => cases h
  | emit first more ih =>
      obtain ⟨rfl, rfl⟩ := Prod.mk.inj (Option.some.inj h)
      exact ha
  | note mark more ih => exact ih ha h
  | ask next ih => exact ih r (ha r hr) h

/-- What is held in surroundings that do not change. -/
theorem of_mem_items (ha : a.Holds env P) (hr : env r) {value : α}
    (h : .ok value ∈ a.items r) : P value := by
  induction a with
  | done => cases h
  | emit item rest ih =>
      rcases List.mem_cons.1 h with h | h
      · exact ha.1 value h.symm
      · exact ih ha.2 h
  | note mark rest ih => exact ih ha h
  | ask next ih => exact ih r (ha r hr) h

end Holds

end Flow

namespace Stream

variable {ρ β : Type} {env : ρ → Prop} {P : Triple → Prop} {r : ρ} {s t : Stream ρ}

/-- All triples of the stream satisfy a condition, in all surroundings of a kind. -/
def Holds (env : ρ → Prop) (P : Triple → Prop) (s : Stream ρ) : Prop := s.flow.Holds env P

theorem holds_empty : (empty : Stream ρ).Holds env P := trivial

theorem holds_ofTriples {topic : Term} {triples : List Triple} (h : ∀ t ∈ triples, P t) :
    (ofTriples topic triples : Stream ρ).Holds env P := by
  refine Flow.holds_ofList fun t ht => h t ?_
  obtain ⟨u, hu, heq⟩ := List.mem_map.1 ht
  exact Except.ok.inj heq ▸ hu

namespace Holds

theorem remaining (hs : s.Holds env P) : s.remaining.Holds env P := by
  rw [Stream.remaining]
  split
  · trivial
  · exact hs.untilFailure

/-- A stream that is built when it is pulled. -/
theorem built {build : ρ → Except Error (Stream ρ)}
    (h : ∀ r s, env r → build r = .ok s → s.Holds env P) (marks : List String) :
    (Stream.built build marks).Holds env P := by
  refine (Flow.holds_defer fun r flow hr hflow => ?_).foldr_note marks
  cases hs : build r with
  | error e =>
      rw [hs] at hflow
      cases hflow
  | ok s =>
      rw [hs] at hflow
      exact Except.ok.inj hflow ▸ (h r s hr hs).remaining

theorem lazy {topic : Term} {build : ρ → Except Error (Stream ρ)}
    (h : ∀ r s, env r → build r = .ok s → s.Holds env P) {marks : List String} :
    (Stream.lazy topic build marks).Holds env P :=
  built h marks

theorem flatMap {topic : Term} {items : List (Except Error β)}
    {f : β → ρ → Except Error (Stream ρ)}
    (h : ∀ b, .ok b ∈ items → ∀ r s, env r → f b r = .ok s → s.Holds env P)
    {marks : β → List String} : (Stream.flatMap topic items f marks).Holds env P :=
  Flow.Holds.each fun b hb => built (h b hb) (marks b)

theorem foldl_concat {parts : List (Stream ρ)} (hs : s.Holds env P)
    (h : ∀ part ∈ parts, part.Holds env P) : (parts.foldl .concat s).Holds env P := by
  induction parts generalizing s with
  | nil => exact hs
  | cons part parts ih =>
      rw [List.forall_mem_cons] at h
      exact ih (Flow.Holds.append hs h.1) h.2

theorem foldl_declare (hs : s.Holds env P) (entries : List (String × String)) :
    (entries.foldl (fun stream entry => stream.declare entry.1 entry.2) s).Holds env P := by
  induction entries generalizing s with
  | nil => exact hs
  | cons entry entries ih => exact ih hs

/-- One pull: the triple satisfies the condition, and so does all that is left. -/
theorem next (hs : s.Holds env P) (hr : env r) :
    (∀ t, (s.next r).2.1 = some (.ok t) → P t) ∧ (s.next r).2.2.Holds env P := by
  have hflow : s.flow.Holds env P := hs
  rw [Stream.next]
  split
  · refine ⟨?_, hs⟩
    rintro t ⟨⟩
  · rcases hpull : s.flow.pull r with ⟨marks, _ | ⟨_ | t, rest⟩⟩
    · refine ⟨?_, trivial⟩
      rintro t ⟨⟩
    · refine ⟨?_, (hflow.pull hr (congrArg Prod.snd hpull)).2⟩
      rintro t ⟨⟩
    · obtain ⟨hitem, hrest⟩ := hflow.pull hr (congrArg Prod.snd hpull)
      exact ⟨fun u hu => hitem u (Option.some.inj hu), hrest⟩

end Holds

/-! ### What is yielded -/

/-- What the stream yields, each pull in surroundings of its own. -/
def pulls : List ρ → Stream ρ → List (Option (Except Error Triple))
  | [], _ => []
  | r :: later, s => (s.next r).2.1 :: pulls later (s.next r).2.2

/-- All triples that the stream yields satisfy a condition, whether it is pulled in surroundings of
a kind that may be others each time, or drained at once. -/
structure YieldsOnly (env : ρ → Prop) (P : Triple → Prop) (s : Stream ρ) : Prop where
  pulled : ∀ now, (∀ r ∈ now, env r) → ∀ t, some (.ok t) ∈ s.pulls now → P t
  drained : ∀ r, env r → ∀ t ∈ (s.drain r).2.1, P t

theorem YieldsOnly.imp {env' : ρ → Prop} {P' : Triple → Prop} (hs : s.YieldsOnly env P)
    (henv : ∀ r, env' r → env r) (h : ∀ t, P t → P' t) : s.YieldsOnly env' P' where
  pulled now hnow t ht := h t (hs.pulled now (fun r hr => henv r (hnow r hr)) t ht)
  drained r hr t ht := h t (hs.drained r (henv r hr) t ht)

theorem ok_mem_items_of_mem_drainFlow {flow : Flow ρ Triple} {t : Triple}
    (h : t ∈ (drainFlow r flow).2.1) : .ok t ∈ flow.items r := by
  induction flow with
  | done => cases h
  | emit item rest ih =>
      cases item with
      | error e => cases h
      | ok u => exact List.mem_cons.2 ((List.mem_cons.1 h).imp (congrArg _) ih)
  | note mark rest ih => exact ih h
  | ask next ih => exact ih r h

/-- **What a stream holds is all that it yields**, however it is pulled. -/
theorem Holds.yieldsOnly (hs : s.Holds env P) : s.YieldsOnly env P where
  pulled := by
    intro now hnow t ht
    induction now generalizing s with
    | nil => cases ht
    | cons r later ih =>
        rw [List.forall_mem_cons] at hnow
        obtain ⟨hfirst, hleft⟩ := hs.next hnow.1
        rcases List.mem_cons.1 ht with h | h
        · exact hfirst t h.symm
        · exact ih hleft hnow.2 h
  drained r hr _ ht := hs.remaining.of_mem_items hr (ok_mem_items_of_mem_drainFlow ht)

end Stream

end LinkedStore
