import LinkedStore.Description.Assembly
import LinkedStore.Proofs.Host.Reading
import LinkedStore.Proofs.Store.Table
import LinkedStore.Proofs.Stream.Items
import LinkedStore.Proofs.Stream.Trace
import Mathlib.Data.List.Flatten

/-!
# Descriptions are ordered sums

A description is put together from deferred streams and one that is built at once, and may have a
test on top.  Nevertheless it holds what an eager reading of it holds: what each selected aspect
says, or the failure that kept the aspect from being worked out, one after the other, up to the
first failure, and without the triples that the selection does not want.  So a description that is
asked for less holds the same triples in the same order, some of them left out.

## Main definitions

* `Description.outcome` : what is said by one aspect.
* `Description.said` : what is said by the selected aspects.
* `Description.Sums` : a stream holds what is said by the selected aspects.

## Main statements

* `Description.sums_of_describe` : every description does; selecting more adds triples only.
-/

namespace LinkedStore.Description

variable {v now : View} {x : Resource} {s : Selection} {topic : Term}

/-! ### Streams that are put together -/

section Concatenation

variable {ρ : Type} {r : ρ} {whole : Stream ρ} {ps : List (Stream ρ)}

theorem finished_foldl_concat (whole : Stream ρ) (ps : List (Stream ρ)) :
    (ps.foldl .concat whole).finished = whole.finished := by
  induction ps generalizing whole with
  | nil => rfl
  | cons p ps ih => exact ih _

theorem topic_foldl_concat (h : whole.topic = some topic) (ps : List (Stream ρ)) :
    (ps.foldl .concat whole).topic = some topic := by
  induction ps generalizing whole with
  | nil => exact h
  | cons p ps ih =>
      refine ih ?_
      rw [Stream.concat, h, Option.some_or]

theorem items_foldl_concat (r : ρ) (whole : Stream ρ) (ps : List (Stream ρ)) :
    (ps.foldl .concat whole).flow.items r =
      whole.flow.items r ++ ps.flatMap fun p => p.flow.items r := by
  induction ps generalizing whole with
  | nil => rw [List.flatMap_nil, List.append_nil, List.foldl_nil]
  | cons p ps ih =>
      rw [List.foldl_cons, ih, List.flatMap_cons, ← List.append_assoc]
      congr 1
      exact Flow.items_append r whole.flow p.flow

/-- The prefixes of the streams that are put together: the first one that declares a prefix
wins. -/
theorem namespaces_foldl_concat (whole : Stream ρ) (ps : List (Stream ρ)) (k : String) :
    (ps.foldl .concat whole).namespaces[k]? =
      whole.namespaces[k]?.or (ps.findSome? fun p => p.namespaces[k]?) := by
  induction ps generalizing whole with
  | nil => rw [List.findSome?_nil, Option.or_none, List.foldl_nil]
  | cons p ps ih =>
      rw [List.foldl_cons, ih, Stream.concat, Table.getElem?_foldl_insertIfNew, Option.or_assoc,
        List.findSome?_cons]
      cases p.namespaces[k]? <;> rfl

end Concatenation

/-! ### What is said -/

/-- What an aspect says: the items of its stream, or the failure that there is instead of one. -/
def outcome (now : View) : Except Error (Stream View) → List (Except Error Triple)
  | .ok part => part.remaining.items now
  | .error e => [.error e]

/-- The view that an aspect is worked out from: namespaces are, when the description is put
together, everything else is when it is pulled. -/
def source (v now : View) (a : Aspect) : View := if a = .namespaces then v else now

/-- What a list of aspects says, one after the other. -/
def sum (v now : View) (x : Resource) (aspects : List Aspect) : List (Except Error Triple) :=
  aspects.flatMap fun a => outcome now (generate a (source v now a) x)

/-- Whether an item is wanted. -/
def wanted (managed : Bool) : Except Error Triple → Bool :=
  Flow.passes fun t => managed || !t.isManaged

/-- What the selected aspects say, up to the first failure, and without the triples that are not
wanted. -/
def said (v now : View) (x : Resource) (s : Selection) : List (Except Error Triple) :=
  (through Flow.failed 1 (sum v now x s.aspects)).filter (wanted s.managed)

/-- A stream that holds what the selected aspects say of a resource. -/
structure Sums (v now : View) (x : Resource) (s : Selection) (d : Stream View) : Prop where
  /-- It is about the resource. -/
  topic : ∃ subject, v.subject x = .ok subject ∧ d.topic = some subject
  /-- It declares what the namespaces declare, if they are selected, and nothing else. -/
  prefixes : if s.includes .namespaces then
      ∃ part, namespaces v x = .ok part ∧ d.namespaces = part.namespaces
    else d.namespaces = ∅
  /-- Pulling it yields what is said, and then nothing for ever. -/
  pulled : ∀ n, (d.take now n).2.1 = (List.range n).map fun k => (said v now x s)[k]?
  /-- Draining it yields what is said. -/
  drained : (d.drain now).2 = Stream.drained (said v now x s)

/-! ### Parts -/

theorem finished_namespaces {p : Stream View} (h : namespaces v x = .ok p) :
    p.finished = false := by
  obtain ⟨subject, -, h⟩ := bind_eq_ok_iff.1 h
  obtain ⟨entries, -, h⟩ := bind_eq_ok_iff.1 h
  rw [← pure_eq_ok_iff.1 h]
  have hdeclare (entries : List (String × String)) (whole : Stream View) :
      (entries.foldl (fun stream entry => stream.declare entry.1 entry.2) whole).finished =
        whole.finished := by
    induction entries generalizing whole with
    | nil => rfl
    | cons entry entries ih => exact ih _
  exact hdeclare entries _

/-- What is said by a part of a description. -/
theorem through_items_part (now : View) {a : Aspect} {p : Stream View}
    (h : part v x topic a = .ok p) :
    through Flow.failed 1 (p.flow.items now) =
      through Flow.failed 1 (outcome now (generate a (source v now a) x)) := by
  rw [part] at h
  split at h
  case isTrue ha =>
    subst ha
    have hfinished : p.finished = false := finished_namespaces h
    rw [source, if_pos rfl, generate, h, outcome, Stream.items_remaining, hfinished,
      if_neg Bool.false_ne_true, through_one_through_one]
  case isFalse ha =>
    obtain rfl := pure_eq_ok_iff.1 h
    rw [source, if_neg ha]
    change through _ 1
      ((Flow.defer fun v => (generate a v x).map Stream.remaining).items now) = _
    rw [Flow.items_defer]
    cases generate a now x <;> rfl

/-- Only the namespaces declare prefixes. -/
theorem namespaces_part {a : Aspect} {p : Stream View} (h : part v x topic a = .ok p) :
    if a = .namespaces then namespaces v x = .ok p else p.namespaces = ∅ := by
  rw [part] at h
  split at h
  case isTrue ha => rw [if_pos ha, h]
  case isFalse ha =>
    rw [if_neg ha]
    exact pure_eq_ok_iff.1 h ▸ rfl

/-- What is said by the parts of a description, one after the other. -/
theorem through_items_parts (now : View) {aspects : List Aspect} {ps : List (Stream View)}
    (h : List.Forall₂ (fun a p => part v x topic a = .ok p) aspects ps) :
    through Flow.failed 1 (ps.flatMap fun p => p.flow.items now) =
      through Flow.failed 1 (sum v now x aspects) := by
  induction h with
  | nil => rfl
  | cons hpart _ ih => exact through_one_append_congr (through_items_part now hpart) ih

/-- The prefixes that the parts of a description declare. -/
theorem findSome?_parts {aspects : List Aspect} {ps : List (Stream View)}
    (h : List.Forall₂ (fun a p => part v x topic a = .ok p) aspects ps) :
    if .namespaces ∈ aspects then
      ∃ part, namespaces v x = .ok part ∧
        ∀ k : String, (ps.findSome? fun p => p.namespaces[k]?) = part.namespaces[k]?
    else ∀ k : String, (ps.findSome? fun p => p.namespaces[k]?) = none := by
  induction h with
  | nil => exact fun _ => rfl
  | @cons a p aspects ps hpart _ ih =>
      have hdeclares := namespaces_part hpart
      by_cases ha : a = .namespaces
      · rw [if_pos ha] at hdeclares
        rw [if_pos (by simp [ha])]
        refine ⟨p, hdeclares, fun k => ?_⟩
        rw [List.findSome?_cons]
        cases hk : p.namespaces[k]? with
        | some ns => rfl
        | none =>
            -- Any other part that declares prefixes is the same one once more.
            split at ih
            · obtain ⟨part, heq, hrest⟩ := ih
              obtain rfl := Except.ok.inj (hdeclares.symm.trans heq)
              exact (hrest k).trans hk
            · exact ih k
      · rw [if_neg ha] at hdeclares
        have hnone (k : String) : p.namespaces[k]? = none := by
          rw [hdeclares, Std.ExtTreeMap.getElem?_empty]
        simp only [List.mem_cons, Ne.symm ha, false_or, List.findSome?_cons, hnone]
        exact ih

/-! ### Descriptions -/

/-- A description is there if its parts are. -/
theorem describe_eq_ok_iff {d : Stream View} :
    describe v x s = .ok d ↔ ∃ subject ps, v.subject x = .ok subject ∧
      List.Forall₂ (fun a p => part v x subject a = .ok p) s.aspects ps ∧
      (if s.managed then ps.foldl Stream.concat (Stream.ofTriples subject [])
        else (ps.foldl Stream.concat (Stream.ofTriples subject [])).filter fun t =>
          !t.isManaged) = d := by
  simp only [describe, parts, bind_eq_ok_iff, pure_eq_ok_iff, mapM_eq_ok_iff]
  constructor
  · rintro ⟨subject, hsubject, whole, ⟨ps, hps, rfl⟩, rfl⟩
    exact ⟨subject, ps, hsubject, hps, rfl⟩
  · rintro ⟨subject, ps, hsubject, hps, rfl⟩
    exact ⟨subject, hsubject, _, ⟨ps, hps, rfl⟩, rfl⟩

/-- What is left of a description that has not been pulled. -/
theorem items_remaining_of_describe {d : Stream View} (h : describe v x s = .ok d) (now : View) :
    d.remaining.items now = said v now x s := by
  obtain ⟨subject, ps, -, hps, rfl⟩ := describe_eq_ok_iff.1 h
  have hwhole : (ps.foldl Stream.concat (Stream.ofTriples subject [])).remaining.items now =
      through Flow.failed 1 (sum v now x s.aspects) := by
    have hfinished : (ps.foldl Stream.concat (Stream.ofTriples subject [])).finished = false :=
      finished_foldl_concat _ ps
    rw [Stream.items_remaining, hfinished, if_neg Bool.false_ne_true, items_foldl_concat]
    exact through_items_parts now hps
  rw [said]
  cases hmanaged : s.managed with
  | true =>
      rw [if_pos rfl, hwhole, List.filter_eq_self.2]
      rintro (e | t) - <;> rfl
  | false =>
      rw [if_neg Bool.false_ne_true, Stream.items_remaining_filter, hwhole]
      rfl

theorem topic_of_describe {d : Stream View} (h : describe v x s = .ok d) :
    ∃ subject, v.subject x = .ok subject ∧ d.topic = some subject := by
  obtain ⟨subject, ps, hsubject, -, rfl⟩ := describe_eq_ok_iff.1 h
  have htopic : (ps.foldl Stream.concat (Stream.ofTriples subject [])).topic = some subject :=
    topic_foldl_concat rfl ps
  refine ⟨subject, hsubject, ?_⟩
  split <;> exact htopic

theorem namespaces_of_describe {d : Stream View} (h : describe v x s = .ok d) :
    if s.includes .namespaces then
      ∃ part, namespaces v x = .ok part ∧ d.namespaces = part.namespaces
    else d.namespaces = ∅ := by
  obtain ⟨subject, ps, -, hps, heq⟩ := describe_eq_ok_iff.1 h
  have hdeclared (k : String) : d.namespaces[k]? = ps.findSome? fun p => p.namespaces[k]? := by
    have hwhole := namespaces_foldl_concat (Stream.ofTriples subject []) ps k
    rw [show (Stream.ofTriples subject [] : Stream View).namespaces = ∅ from rfl,
      Std.ExtTreeMap.getElem?_empty, Option.none_or] at hwhole
    rw [← hwhole, ← heq]
    split <;> rfl
  have hparts := findSome?_parts hps
  have hincludes : .namespaces ∈ s.aspects ↔ s.includes .namespaces = true := by
    rw [Selection.aspects, List.mem_filter, and_iff_right (Aspect.mem_all _)]
  by_cases hincluded : s.includes .namespaces = true
  · rw [if_pos (hincludes.2 hincluded)] at hparts
    obtain ⟨part, hpart, hsame⟩ := hparts
    rw [if_pos hincluded]
    exact ⟨part, hpart, Std.ExtTreeMap.ext_getElem? fun k => (hdeclared k).trans (hsame k)⟩
  · rw [if_neg (mt hincludes.1 hincluded)] at hparts
    rw [if_neg hincluded]
    refine Std.ExtTreeMap.ext_getElem? fun k => ?_
    rw [hdeclared, hparts, Std.ExtTreeMap.getElem?_empty]

theorem sums_describe {d : Stream View} (h : describe v x s = .ok d) (now : View) :
    Sums v now x s d where
  topic := topic_of_describe h
  prefixes := namespaces_of_describe h
  pulled n := by rw [Stream.results_take, items_remaining_of_describe h]
  drained := by rw [Stream.drain_snd, items_remaining_of_describe h]

/-! ### Larger selections -/

/-- If there is no failure, nothing is cut. -/
theorem map_ok_of_collect {d : Stream View} (h : describe v x s = .ok d) {triples : List Triple}
    (hcollect : d.collect now = .ok triples) :
    triples.map .ok = (sum v now x s.aspects).filter (wanted s.managed) := by
  have hsaid : triples.map .ok = said v now x s := by
    rw [← items_remaining_of_describe h]
    exact (Stream.collect_eq_ok_iff.1 hcollect).symm
  have hnone : (triples.map (Except.ok (ε := Error))).countP Flow.failed = 0 := by
    rw [List.countP_map]
    exact List.countP_eq_zero.2 fun _ _ => Bool.false_ne_true
  have hwanted : (fun item => Flow.failed item && wanted s.managed item) = Flow.failed := by
    funext item
    cases item <;> rfl
  rw [hsaid, said, List.countP_filter, hwanted, countP_through] at hnone
  rw [hsaid, said, through_of_countP_lt (by omega)]

/-- A description that is asked for less holds the same triples in the same order, some of them
left out. -/
theorem sublist_of_describe {t : Selection} {d e : Stream View} (hd : describe v x s = .ok d)
    (he : describe v x t = .ok e) (hincludes : ∀ a, s.includes a = true → t.includes a = true)
    (hmanaged : s.managed = t.managed) {small large : List Triple}
    (hsmall : d.collect now = .ok small) (hlarge : e.collect now = .ok large) :
    small.Sublist large := by
  have haspects : s.aspects.Sublist t.aspects := List.monotone_filter_right _ hincludes
  have hitems : (small.map (Except.ok (ε := Error))).Sublist (large.map .ok) := by
    rw [map_ok_of_collect hd hsmall, map_ok_of_collect he hlarge, hmanaged]
    exact (haspects.flatMap _).filter _
  obtain ⟨part, hpart, heq⟩ := List.sublist_map_iff.1 hitems
  rw [List.map_injective_iff.2 (fun _ _ => Except.ok.inj) heq]
  exact hpart

/-- **A description is the ordered sum of its aspects**, and selecting more aspects adds triples
only. -/
theorem sums_of_describe {d : Stream View} (h : describe v x s = .ok d) (now : View) :
    Sums v now x s d ∧
      ∀ (t : Selection) (e : Stream View) (small large : List Triple),
        (∀ a, s.includes a = true → t.includes a = true) → s.managed = t.managed →
          describe v x t = .ok e → d.collect now = .ok small → e.collect now = .ok large →
            small.Sublist large :=
  ⟨sums_describe h now, fun _ _ _ _ hincludes hmanaged he hsmall hlarge =>
    sublist_of_describe h he hincludes hmanaged hsmall hlarge⟩

/-- A container in a new repository and one more inside it, their nodes named by IRIs. -/
def containerView : View :=
  .ofMap ⟨"http://localhost"⟩ ((Access.direct 0).reader ((Host.start "root").run
    [.opening "default", .mutate 0 ⟨toString, .epoch⟩ (.createContainer "/a"),
      .mutate 0 ⟨fun j => toString (j + 1), .epoch⟩ (.createContainer "/a/b")]))

/-- The description of the container alone is a sum of its aspects, and the standard description
adds to it the triple that says what the container contains. -/
theorem sums_of_describe_container :
    let x : Resource := ⟨⟨"/a", "0", "nt:folder", [Vocab.Name.fedoraContainer]⟩, .container,
      "default"⟩
    Resource.at? containerView.reader "/a" = .ok (some x) ∧
      ∃ d e small large, describe containerView x .minimal = .ok d ∧
        Sums containerView containerView x .minimal d ∧
        describe containerView x .standard = .ok e ∧ d.collect containerView = .ok small ∧
        e.collect containerView = .ok large ∧ small.Sublist large ∧
        small.length = 40 ∧ large.length = 41 := by
  intro x
  have hcollected {s : Selection} {n : Nat}
      (hcount : ((describe containerView x s).bind (·.collect containerView)).toOption.map
        List.length = some n) :
      ∃ d triples, describe containerView x s = .ok d ∧ d.collect containerView = .ok triples ∧
        triples.length = n := by
    cases hd : describe containerView x s with
    | error e => rw [hd] at hcount; cases hcount
    | ok d =>
        rw [hd] at hcount
        cases hcollect : d.collect containerView with
        | error e => rw [Except.bind, hcollect] at hcount; cases hcount
        | ok triples =>
            rw [Except.bind, hcollect] at hcount
            exact ⟨d, triples, rfl, hcollect, Option.some.inj hcount⟩
  obtain ⟨d, small, hd, hsmall, hsmallCount⟩ :=
    hcollected (s := .minimal) (n := 40) (by decide +kernel)
  obtain ⟨e, large, he, hlarge, hlargeCount⟩ :=
    hcollected (s := .standard) (n := 41) (by decide +kernel)
  have hincludes (a : Aspect) (ha : Selection.minimal.includes a = true) :
      Selection.standard.includes a = true := by
    cases a <;> first | rfl | exact nomatch ha
  have hsums := sums_of_describe hd containerView
  exact ⟨by decide +kernel, d, e, small, large, hd, hsums.1, he, hsmall, hlarge,
    hsums.2 .standard e small large hincludes rfl he hsmall hlarge, hsmallCount, hlargeCount⟩

end LinkedStore.Description
