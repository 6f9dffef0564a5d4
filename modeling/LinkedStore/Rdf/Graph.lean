import LinkedStore.Rdf.Triple
import LinkedStore.Store.Table

/-!
# Graphs

A graph holds triples in the order in which they were added, repeated ones included, with the
resource it describes and the prefixes a writer should use.  Its canonical form lists each triple
once, in order.

## Main definitions

* `ascending` : the distinct items of a list, in order.
* `Graph` : the triples of a description.
* `Graph.canonical` : the graph with each triple once, in order.
-/

namespace LinkedStore

/-! ### Sorted lists without repetition -/

/-- An ascending list with an item in its place, unless the item is there already. -/
def insertAscending {α : Type} [Ord α] (x : α) : List α → List α
  | [] => [x]
  | y :: rest =>
      match compare x y with
      | .lt => x :: y :: rest
      | .eq => y :: rest
      | .gt => y :: insertAscending x rest

/-- The distinct items of a list, in order. -/
def ascending {α : Type} [Ord α] (items : List α) : List α := items.foldr insertAscending []

/-! ### Graphs -/

/-- The triples of a description. -/
structure Graph where
  triples : List Triple
  /-- The resource that is described. -/
  topic : Option Term
  /-- The namespace of each prefix. -/
  prefixes : Table String

namespace Graph

def empty : Graph := ⟨[], none, ∅⟩

/-- The graph of a list of triples, without a topic. -/
def ofList (triples : List Triple) : Graph := { empty with triples }

def add (g : Graph) (t : Triple) : Graph := { g with triples := g.triples ++ [t] }

def addAll (g : Graph) (ts : List Triple) : Graph := { g with triples := g.triples ++ ts }

def declare (g : Graph) (lead ns : String) : Graph :=
  { g with prefixes := g.prefixes.insert lead ns }

/-- The graph with each triple once, in order. -/
def canonical (g : Graph) : Graph := { g with triples := ascending g.triples }

def contains (g : Graph) (t : Triple) : Bool := g.triples.any (· == t)

/-- The triples with a given predicate. -/
def withPredicate (g : Graph) (predicate : String) : List Triple :=
  g.triples.filter fun t => t.predicate.iri? == some predicate

/-- The objects of a subject under a predicate. -/
def objects (g : Graph) (subject : Term) (predicate : String) : List Term :=
  ((g.withPredicate predicate).filter (·.subject == subject)).map (·.object)

/-- The distinct subjects, in order. -/
def subjects (g : Graph) : List Term := ascending (g.triples.map (·.subject))

end Graph

end LinkedStore
