import LinkedStore.Proofs.Store.Table
import LinkedStore.Proofs.Stream.Trace

/-!
# Lazy streams mean what eager lists mean

A stream expression is a tree of the operations on streams.  It can be read in two ways: as the
stream that the operations make, which works something out only when it is pulled, and as a trace,
an eager list of all items, with all that has to be worked out for them in front of them.  The
trace knows nothing of a stream that ends with its first failure, nor of streams within streams;
it is cut once, at the end.

Pulling the stream reads the trace: after any number of pulls exactly that has been worked out which
the trace has up to the item that was pulled last.

## Main definitions

* `StreamExpr` : a tree of the operations on streams.
* `StreamExpr.stream`, `StreamExpr.trace` : its stream and its trace.
* `StreamExpr.calls` : the builders and the mapped items, from left to right.
* `StreamExpr.ReadsTrace` : pulling the stream reads the trace.

## Main statements

* `StreamExpr.agrees` : the stream does what the trace says up to the first failure.
* `StreamExpr.calls_trace` : every builder has its place in the trace once.
* `StreamExpr.readsTrace` : pulling the stream of any expression reads its trace; the streams of
  expressions are a monoid under concatenation.
-/

namespace LinkedStore

open LinkedStore.Flow (Event)

namespace Stream

variable {ρ : Type}

/-- Concatenation is associative. -/
theorem concat_assoc (s t u : Stream ρ) : s ++ t ++ u = s ++ (t ++ u) := by
  change concat (concat s t) u = concat s (concat t u)
  rw [concat, concat, concat, concat, Stream.mk.injEq]
  refine ⟨Option.or_assoc, Std.ExtTreeMap.ext_getElem? fun k => ?_,
    Flow.append_assoc s.flow t.flow u.flow, rfl⟩
  simp only [Table.getElem?_foldl_insertIfNew, Option.or_assoc]

/-- A stream that has not ended is not changed by the empty stream in front of it. -/
theorem empty_concat {s : Stream ρ} (hs : s.finished = false) : empty ++ s = s := by
  change concat empty s = ⟨s.topic, s.namespaces, s.flow, s.finished⟩
  rw [concat, empty, hs, Stream.mk.injEq]
  refine ⟨rfl, Std.ExtTreeMap.ext_getElem? fun k => ?_, rfl, rfl⟩
  rw [Table.getElem?_foldl_insertIfNew, Std.ExtTreeMap.getElem?_empty, Option.none_or]

theorem concat_empty (s : Stream ρ) : s ++ empty = s := by
  change concat s empty = ⟨s.topic, s.namespaces, s.flow, s.finished⟩
  rw [concat, empty, Stream.mk.injEq]
  refine ⟨Option.or_none, Std.ExtTreeMap.ext_getElem? fun k => ?_, Flow.append_done s.flow, rfl⟩
  rw [Table.getElem?_foldl_insertIfNew, Std.ExtTreeMap.getElem?_empty, Option.or_none]

end Stream

/-- Something that is worked out for a stream. -/
inductive Effect where
  /-- A stream is built. -/
  | built (label : String)
  /-- An item is mapped to a stream. -/
  | mapped (label : String)
  /-- A triple is tested. -/
  | tested (t : Triple)

/-- Whether it is a call of a builder or a mapping. -/
def Effect.isCall : Effect → Bool
  | tested _ => false
  | _ => true

/-- A step of a trace. -/
inductive Step where
  | effect (e : Effect)
  | item (item : Except Error Triple)

namespace Step

def effect? : Step → Option Effect
  | effect e => some e
  | item _ => none

def item? : Step → Option (Except Error Triple)
  | effect _ => none
  | item x => some x

def isItem : Step → Bool
  | effect _ => false
  | item _ => true

/-- Whether the step is a failure. -/
def fails : Step → Bool
  | item (.error _) => true
  | _ => false

/-- The steps that take the place of a step when the triples are tested. -/
def sift (keep : Triple → Bool) : Step → List Step
  | item (.ok t) => effect (.tested t) :: if keep t then [item (.ok t)] else []
  | s => [s]

/-- The events that show a step, when an effect is shown by marks. -/
def spell (word : Effect → List String) : Step → List (Event Triple)
  | effect e => (word e).map .mark
  | item x => [.item x]

/-- An effect is shown by no item. -/
theorem through_spell {p : Step → Bool} {q : Event Triple → Bool} (word : Effect → List String)
    (heffect : ∀ e, p (effect e) = false) (hmark : ∀ m, q (.mark m) = false)
    (hitem : ∀ x, p (item x) = q (.item x)) (n : Nat) (l : List Step) :
    through q n (l.flatMap (spell word)) = (through p n l).flatMap (spell word) := by
  refine through_flatMap (fun s hs => ?_) (fun s hs => ?_) n l
  · cases s with
    | effect e => simp [heffect] at hs
    | item x => exact ⟨_, rfl, (hitem x).symm.trans hs⟩
  · cases s with
    | effect e => exact Event.countP_map_mark q hmark _
    | item x =>
        rw [hitem] at hs
        simp [spell, hs]

/-- Testing can be shown before or after. -/
theorem spell_sift (word : Effect → List String) (keep : Triple → Bool) (l : List Step) :
    (l.flatMap (sift keep)).flatMap (spell word) =
      (l.flatMap (spell word)).flatMap (Event.sift keep fun t => word (.tested t)) := by
  rw [List.flatMap_assoc, List.flatMap_assoc]
  congr 1
  funext s
  match s with
  | effect e =>
      change (word e).map Event.mark ++ [] = ((word e).map Event.mark).flatMap _
      rw [List.flatMap_map, List.append_nil]
      exact List.map_eq_flatMap ..
  | item (.error e) => rfl
  | item (.ok t) =>
      simp only [sift, spell, List.flatMap_cons, List.flatMap_nil, List.append_nil, Event.sift]
      split <;> rfl

/-- The calls among the steps. -/
def calls (l : List Step) : List Effect := (l.filterMap effect?).filter Effect.isCall

theorem calls_append (l l' : List Step) : calls (l ++ l') = calls l ++ calls l' := by
  rw [calls, List.filterMap_append, List.filter_append, calls, calls]

theorem calls_map_item {β : Type} (members : List β) (g : β → Except Error Triple) :
    calls (members.map fun b => item (g b)) = [] := by
  have hnone : (members.map fun b => item (g b)).filterMap effect? = [] := by
    rw [List.filterMap_map]
    exact List.filterMap_eq_nil_iff.2 fun _ _ => rfl
  rw [calls, hnone, List.filter_nil]

theorem calls_flatMap {β : Type} (members : List β) (g : β → List Step) :
    calls (members.flatMap g) = members.flatMap fun b => calls (g b) := by
  induction members with
  | nil => rfl
  | cons b members ih => rw [List.flatMap_cons, List.flatMap_cons, calls_append, ih]

/-- Testing is no call. -/
theorem calls_sift (keep : Triple → Bool) (l : List Step) :
    calls (l.flatMap (sift keep)) = calls l := by
  induction l with
  | nil => rfl
  | cons s l ih =>
      rw [List.flatMap_cons, calls_append, ih, ← List.singleton_append, calls_append]
      congr 1
      match s with
      | effect e => rfl
      | item (.error e) => rfl
      | item (.ok t) => cases hkeep : keep t <;> simp [sift, hkeep, calls, effect?, Effect.isCall]

theorem filterMap_mark?_spell (word : Effect → List String) (l : List Step) :
    (l.flatMap (spell word)).filterMap Event.mark? = (l.filterMap effect?).flatMap word := by
  induction l with
  | nil => rfl
  | cons s l ih =>
      rw [List.flatMap_cons, List.filterMap_append, ih]
      cases s with
      | effect e => rw [spell, Event.filterMap_mark?_map_mark]; rfl
      | item x => rfl

theorem filterMap_item?_spell (word : Effect → List String) (l : List Step) :
    (l.flatMap (spell word)).filterMap Event.item? = l.filterMap item? := by
  induction l with
  | nil => rfl
  | cons s l ih =>
      rw [List.flatMap_cons, List.filterMap_append, ih]
      cases s with
      | effect e => rw [spell, Event.filterMap_item?_map_mark]; rfl
      | item x => rfl

end Step

/-- A tree of the operations on streams.  A builder or a mapping may fail. -/
inductive StreamExpr (ρ : Type) : Type 1 where
  | empty
  | new (topic : Term) (items : List (Except Error Triple))
  | ofTriples (topic : Term) (triples : List Triple)
  | lazy (topic : Term) (label : String) (build : ρ → Except Error (StreamExpr ρ))
  | flatMap {β : Type} (topic : Term) (items : List (Except Error β)) (label : β → String)
      (f : β → ρ → Except Error (StreamExpr ρ))
  | concat (a b : StreamExpr ρ)
  | filter (a : StreamExpr ρ) (keep : Triple → Bool)
  | withTopic (a : StreamExpr ρ) (topic : Term)
  | declare (a : StreamExpr ρ) (lead ns : String)

namespace StreamExpr

variable {ρ : Type} {word : Effect → List String} {r : ρ}

instance : Append (StreamExpr ρ) := ⟨concat⟩

/-! ### Two readings -/

mutual

/-- The stream of an expression, in which every effect leaves its marks. -/
def stream (word : Effect → List String) : StreamExpr ρ → Stream ρ
  | empty => .empty
  | new topic items => .ofFlow topic (.ofList items)
  | ofTriples topic triples => .ofTriples topic triples
  | lazy topic label build =>
      .lazy topic (fun r => streamOf word (build r)) (word (.built label))
  | flatMap topic items label f =>
      .flatMap topic items (fun b r => streamOf word (f b r)) fun b => word (.mapped (label b))
  | concat a b => stream word a ++ stream word b
  | filter a keep => (stream word a).filter keep fun t => word (.tested t)
  | withTopic a topic => (stream word a).withTopic topic
  | declare a lead ns => (stream word a).declare lead ns

/-- The stream of what a builder returns. -/
def streamOf (word : Effect → List String) : Except Error (StreamExpr ρ) → Except Error (Stream ρ)
  | .ok a => .ok (stream word a)
  | .error e => .error e

end

mutual

/-- All items of an expression, each after what is worked out for it. -/
def trace (r : ρ) : StreamExpr ρ → List Step
  | empty => []
  | new _ items => items.map .item
  | ofTriples _ triples => triples.map fun t => .item (.ok t)
  | lazy _ label build => .effect (.built label) :: traceOf r (build r)
  | flatMap _ items label f => items.flatMap fun
      | .ok b => .effect (.mapped (label b)) :: traceOf r (f b r)
      | .error e => [.item (.error e)]
  | concat a b => trace r a ++ trace r b
  | filter a keep => (trace r a).flatMap (Step.sift keep)
  | withTopic a _ => trace r a
  | declare a _ _ => trace r a

/-- The trace of what a builder returns. -/
def traceOf (r : ρ) : Except Error (StreamExpr ρ) → List Step
  | .ok a => trace r a
  | .error e => [.item (.error e)]

end

mutual

/-- The builders and the mapped items of an expression, from left to right. -/
def calls (r : ρ) : StreamExpr ρ → List Effect
  | lazy _ label build => .built label :: callsOf r (build r)
  | flatMap _ items label f => items.flatMap fun
      | .ok b => .mapped (label b) :: callsOf r (f b r)
      | .error _ => []
  | concat a b => calls r a ++ calls r b
  | filter a _ | withTopic a _ | declare a _ _ => calls r a
  | empty | new _ _ | ofTriples _ _ => []

/-- The builders and the mapped items of what a builder returns. -/
def callsOf (r : ρ) : Except Error (StreamExpr ρ) → List Effect
  | .ok a => calls r a
  | .error _ => []

end

/-- The induction that follows what the builders return. -/
@[elab_as_elim, induction_eliminator]
theorem induct {motive : StreamExpr ρ → Prop} (a : StreamExpr ρ) (empty : motive empty)
    (new : ∀ topic items, motive (new topic items))
    (ofTriples : ∀ topic triples, motive (ofTriples topic triples))
    (lazy : ∀ topic label build, (∀ r a, build r = .ok a → motive a) →
      motive (lazy topic label build))
    (flatMap : ∀ {β : Type} topic (items : List (Except Error β)) label f,
      (∀ b r a, f b r = .ok a → motive a) → motive (flatMap topic items label f))
    (concat : ∀ a b, motive a → motive b → motive (concat a b))
    (filter : ∀ a keep, motive a → motive (filter a keep))
    (withTopic : ∀ a topic, motive a → motive (withTopic a topic))
    (declare : ∀ a lead ns, motive a → motive (declare a lead ns)) : motive a :=
  @StreamExpr.rec ρ motive (fun x => ∀ a, x = .ok a → motive a)
    empty new ofTriples lazy flatMap concat filter withTopic declare
    (fun _ _ h => nomatch h) (fun _ ih _ h => Except.ok.inj h ▸ ih) a

/-! ### What the stream does -/

theorem finished_stream (word : Effect → List String) (a : StreamExpr ρ) :
    (a.stream word).finished = false := by
  induction a with
  | concat a b iha ihb => exact iha
  | filter a keep ih => exact ih
  | withTopic a topic ih => exact ih
  | declare a lead ns ih => exact ih
  | _ => rfl

/-- The stream and the trace of an expression agree up to the first failure. -/
def Agrees (word : Effect → List String) (r : ρ) (a : StreamExpr ρ) : Prop :=
  through Event.fails 1 ((a.stream word).flow.run r) =
    through Event.fails 1 ((a.trace r).flatMap (Step.spell word))

/-- So they do for what a builder returns, which is worked out when it is pulled. -/
theorem Agrees.built {label : Effect} {build : ρ → Except Error (StreamExpr ρ)}
    (h : ∀ a, build r = .ok a → a.Agrees word r) :
    through Event.fails 1 ((Stream.built (fun r => streamOf word (build r)) (word label)).run r) =
      through Event.fails 1 ((.effect label :: traceOf r (build r)).flatMap (Step.spell word)) := by
  rw [Stream.built, Flow.run_foldr_note, List.flatMap_cons, Step.spell, Flow.run_defer]
  refine through_one_append_congr rfl ?_
  cases hbuild : build r with
  | error e => rfl
  | ok a =>
      change through _ 1 ((a.stream word).remaining.run r) = _
      rw [Stream.run_remaining, finished_stream, if_neg Bool.false_ne_true, through_one_through_one]
      exact h a hbuild

/-- **The stream does what the trace says** up to the first failure. -/
theorem agrees (word : Effect → List String) (r : ρ) (a : StreamExpr ρ) : a.Agrees word r := by
  induction a with
  | empty => rfl
  | new topic items =>
      rw [Agrees, stream, Stream.ofFlow, Flow.run_ofList, trace, List.flatMap_map]
      exact congrArg _ (List.map_eq_flatMap ..)
  | ofTriples topic triples =>
      rw [Agrees, stream, Stream.ofTriples, Stream.ofFlow, Flow.run_ofList, trace, List.flatMap_map,
        List.map_map]
      exact congrArg _ (List.map_eq_flatMap ..)
  | lazy topic label build ih => exact .built (ih r)
  | flatMap topic items label f ih =>
      rw [Agrees, stream, Stream.flatMap, Stream.ofFlow, Flow.run_each, trace, List.flatMap_assoc]
      refine through_one_flatMap_congr items fun item => ?_
      cases item with
      | error e => rfl
      | ok b =>
          rw [through_one_through_one]
          exact Agrees.built (ih b r)
  | concat a b iha ihb =>
      have hrun : ((concat a b).stream word).flow.run r =
          (a.stream word).flow.run r ++ (b.stream word).flow.run r := Flow.run_append ..
      rw [Agrees, hrun, trace, List.flatMap_append]
      exact through_one_append_congr iha ihb
  | filter a keep ih =>
      rw [Agrees, trace, Step.spell_sift, Event.through_sift, ← ih, ← Event.through_sift,
        ← Flow.run_filter]
      rfl
  | withTopic a topic ih => exact ih
  | declare a lead ns ih => exact ih

/-- The calls of what a builder returns have their places in its trace. -/
theorem calls_traceOf {r : ρ} {built : Except Error (StreamExpr ρ)}
    (h : ∀ a, built = .ok a → Step.calls (a.trace r) = a.calls r) {label : Effect}
    (hlabel : label.isCall = true) :
    Step.calls (.effect label :: traceOf r built) = label :: callsOf r built := by
  have hfirst : Step.calls [.effect label] = [label] := by
    simp [Step.calls, Step.effect?, hlabel]
  rw [← List.singleton_append, Step.calls_append, hfirst, List.singleton_append]
  cases built with
  | error e => rfl
  | ok a => rw [traceOf, h a rfl, callsOf]

/-- Every builder and every mapped item has its place in the trace once, from left to right. -/
theorem calls_trace (r : ρ) (a : StreamExpr ρ) : Step.calls (a.trace r) = a.calls r := by
  induction a with
  | empty => rfl
  | new topic items => exact Step.calls_map_item items id
  | ofTriples topic triples => exact Step.calls_map_item triples .ok
  | lazy topic label build ih => exact calls_traceOf (ih r) rfl
  | flatMap topic items label f ih =>
      rw [trace, Step.calls_flatMap, calls]
      congr 1
      funext item
      cases item with
      | error e => rfl
      | ok b => exact calls_traceOf (ih b r) rfl
  | concat a b iha ihb => rw [trace, Step.calls_append, iha, ihb, calls]
  | filter a keep ih => rw [trace, Step.calls_sift, ih, calls]
  | withTopic a topic ih => exact ih
  | declare a lead ns ih => exact ih

/-! ### Pulling -/

/-- The trace up to its item number `n`, and up to the first failure. -/
def reached (r : ρ) (n : Nat) (a : StreamExpr ρ) : List Step :=
  through Step.isItem n (through Step.fails 1 (a.trace r))

/-- Pulling the stream of an expression reads its trace. -/
structure ReadsTrace (word : Effect → List String) (r : ρ) (a : StreamExpr ρ) : Prop where
  /-- The results are the items of the trace up to the first failure, and then nothing for ever. -/
  results : ∀ n, ((a.stream word).take r n).2.1 =
    (List.range n).map fun k => ((through Step.fails 1 (a.trace r)).filterMap Step.item?)[k]?
  /-- What has been worked out are the effects of the trace up to the item pulled last. -/
  marks : ∀ n, ((a.stream word).take r n).1 = ((a.reached r n).filterMap Step.effect?).flatMap word
  /-- Each builder has run at most once, and each item has been mapped at most once, from left to
  right. -/
  once : ∀ n, Step.calls (a.reached r n) <+: a.calls r

/-- **Lazy streams mean what eager lists mean**: pulling the stream of any expression reads its
trace.  Concatenation is associative, and the empty stream is its unit, in the topic, the prefixes,
the items and all that is worked out. -/
theorem readsTrace (word : Effect → List String) (r : ρ) :
    (∀ a : StreamExpr ρ, a.ReadsTrace word r) ∧
      (∀ a b c : StreamExpr ρ, (a ++ b ++ c).stream word = (a ++ (b ++ c)).stream word) ∧
      ∀ a : StreamExpr ρ, (empty ++ a).stream word = a.stream word ∧
        (a ++ empty).stream word = a.stream word := by
  refine ⟨fun a => ?_, fun a b c => ?_, fun a => ⟨?_, ?_⟩⟩
  · have hrun : (a.stream word).remaining.run r =
        (through Step.fails 1 (a.trace r)).flatMap (Step.spell word) := by
      rw [Stream.run_remaining, finished_stream, if_neg Bool.false_ne_true, agrees]
      refine Step.through_spell word (fun _ => rfl) (fun _ => rfl) (fun x => ?_) 1 _
      cases x <;> rfl
    constructor
    case results =>
      intro n
      rw [Stream.results_take, ← Flow.filterMap_item?_run, hrun, Step.filterMap_item?_spell]
    case marks =>
      intro n
      rw [Stream.marks_take, hrun, ← Step.filterMap_mark?_spell, reached,
        Step.through_spell (p := Step.isItem) word (fun _ => rfl) (fun _ => rfl) fun _ => rfl]
    case once =>
      intro n
      rw [← calls_trace]
      exact (((isPrefix_through _ _ _).trans (isPrefix_through _ _ _)).filterMap _).filter _
  · exact Stream.concat_assoc ..
  · exact Stream.empty_concat (finished_stream word a)
  · exact Stream.concat_empty _

/-- What is to the right of an item has not been built when the item is pulled. -/
example (topic : Term) (t u : Triple) :
    let word : Effect → List String
      | .built label => [label]
      | _ => []
    let a : StreamExpr Unit :=
      .ofTriples topic [t] ++ .lazy topic "late" fun _ => .ok (.ofTriples topic [u])
    (((a.stream word).take () 1).1, ((a.stream word).take () 2).1) = ([], ["late"]) := rfl

end StreamExpr

end LinkedStore
