import LinkedStore.Rdf.Graph
import LinkedStore.Stream.Flow

/-!
# Streams of triples

A stream is a flow of triples about a topic, with the prefixes that a writer should declare.  It
ends with its first failure.  A stream that has ended stays so, also when another one is
concatenated to it; what a stream that ended in a failure still held is not forgotten by a stream
that it is concatenated to.

## Main definitions

* `Stream` : a flow of triples with a topic and prefixes.
* `Stream.next`, `Stream.take`, `Stream.drain` : pulling a stream.
* `Stream.concat`, `Stream.filter`, `Stream.lazy`, `Stream.flatMap` : the operations.
* `Stream.graph`, `Stream.equivalent` : what is made of a whole stream.
-/

namespace LinkedStore

/-- A flow of triples about a topic. -/
structure Stream (ρ : Type) where
  topic : Option Term
  /-- The namespace of each prefix. -/
  namespaces : Table String
  flow : Flow ρ Triple
  /-- Whether the end, or a failure, has been yielded. -/
  finished : Bool

namespace Stream

variable {ρ β : Type}

/-! ### Building streams -/

/-- The stream without triples and without a topic. -/
def empty : Stream ρ := ⟨none, ∅, .done, false⟩

/-- The stream of a flow. -/
def ofFlow (topic : Term) (flow : Flow ρ Triple) : Stream ρ := ⟨some topic, ∅, flow, false⟩

/-- The stream of a list of triples. -/
def ofTriples (topic : Term) (triples : List Triple) : Stream ρ :=
  ofFlow topic (.ofList (triples.map .ok))

/-- What is left to be yielded: nothing, once the stream has ended, and else everything up to the
first failure. -/
def remaining (s : Stream ρ) : Flow ρ Triple := if s.finished then .done else s.flow.untilFailure

/-- The flow of a stream that is built when it is first pulled, and fails if that fails.  Building
it leaves marks. -/
def built (build : ρ → Except Error (Stream ρ)) (marks : List String) : Flow ρ Triple :=
  marks.foldr .note (.defer fun r => (build r).map remaining)

/-- A stream that is built when it is first pulled.  The prefixes of the stream that is built are
not declared. -/
def lazy (topic : Term) (build : ρ → Except Error (Stream ρ)) (marks : List String := []) :
    Stream ρ :=
  ofFlow topic (built build marks)

/-- The streams of a list of items, one after the other, each built when the one before is over. -/
def flatMap (topic : Term) (items : List (Except Error β)) (f : β → ρ → Except Error (Stream ρ))
    (marks : β → List String := fun _ => []) : Stream ρ :=
  ofFlow topic (.each items fun b => built (f b) (marks b))

/-! ### Operations -/

def withTopic (s : Stream ρ) (topic : Term) : Stream ρ := { s with topic := some topic }

/-- Declares a prefix. -/
def declare (s : Stream ρ) (lead ns : String) : Stream ρ :=
  { s with namespaces := s.namespaces.insert lead ns }

/-- All of one stream, and then all of another.  The first one's topic and prefixes win. -/
def concat (s t : Stream ρ) : Stream ρ :=
  { topic := s.topic.or t.topic
    namespaces := t.namespaces.foldl (fun held lead ns => held.insertIfNew lead ns) s.namespaces
    flow := s.flow ++ t.flow
    finished := s.finished }

instance : Append (Stream ρ) := ⟨concat⟩

/-- The triples that satisfy a test, with every failure.  Testing a triple leaves marks. -/
def filter (s : Stream ρ) (keep : Triple → Bool) (marks : Triple → List String := fun _ => []) :
    Stream ρ :=
  { s with flow := s.flow.filter keep marks }

/-- A stream of other triples with the same topic and prefixes. -/
def withTriples (s : Stream ρ) (items : List (Except Error Triple)) : Stream ρ :=
  { s with flow := .ofList items, finished := false }

/-- The stream in other surroundings, which determine its own. -/
def within {σ : Type} (view : σ → ρ) (s : Stream ρ) : Stream σ :=
  ⟨s.topic, s.namespaces, s.flow.within view, s.finished⟩

/-! ### Pulling -/

/-- The marks left by one pull, the item, if there is one, and the stream that is left. -/
def next (r : ρ) (s : Stream ρ) : List String × Option (Except Error Triple) × Stream ρ :=
  if s.finished then ([], none, s)
  else
    match s.flow.pull r with
    | (marks, none) => (marks, none, { s with flow := .done, finished := true })
    | (marks, some (.error e, rest)) =>
        (marks, some (.error e), { s with flow := rest, finished := true })
    | (marks, some (.ok t, rest)) => (marks, some (.ok t), { s with flow := rest })

/-- The marks and the items of a number of pulls, and the stream that is left. -/
def take (r : ρ) : Nat → Stream ρ → List String × List (Option (Except Error Triple)) × Stream ρ
  | 0, s => ([], [], s)
  | n + 1, s =>
      let (marks, item, s) := s.next r
      let (more, items, s) := take r n s
      (marks ++ more, item :: items, s)

/-- The marks, the triples, and the failure, if there is one, of a flow up to its end. -/
def drainFlow (r : ρ) : Flow ρ Triple → List String × List Triple × Option Error
  | .done => ([], [], none)
  | .emit (.error e) _ => ([], [], some e)
  | .emit (.ok t) rest =>
      let (marks, triples, failure) := drainFlow r rest
      (marks, t :: triples, failure)
  | .note mark rest =>
      let (marks, triples, failure) := drainFlow r rest
      (mark :: marks, triples, failure)
  | .ask next => drainFlow r (next r)

/-- The marks, the triples, and the failure, if there is one, of the rest of a stream. -/
def drain (r : ρ) (s : Stream ρ) : List String × List Triple × Option Error :=
  drainFlow r s.remaining

/-- The triples of the rest of a stream, unless it fails. -/
def collect (r : ρ) (s : Stream ρ) : Except Error (List Triple) :=
  match s.drain r with
  | (_, triples, none) => .ok triples
  | (_, _, some e) => .error e

/-- The graph of the rest of a stream, unless it fails. -/
def graph (r : ρ) (s : Stream ρ) : Except Error Graph := do
  pure ⟨← s.collect r, s.topic, s.namespaces⟩

/-- Whether two streams have equal topics and prefixes and the same set of triples left.  The
marks are those of the streams that had to be drained. -/
def equivalent (r : ρ) (s t : Stream ρ) : List String × Except Error Bool :=
  if s.topic ≠ t.topic ∨ s.namespaces ≠ t.namespaces then ([], .ok false)
  else
    match s.drain r with
    | (marks, _, some e) => (marks, .error e)
    | (marks, left, none) =>
        match t.drain r with
        | (more, _, some e) => (marks ++ more, .error e)
        | (more, right, none) =>
            (marks ++ more, .ok (left.all right.contains && right.all left.contains))

end Stream

end LinkedStore
