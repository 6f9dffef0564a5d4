import LinkedStore.Rdf.Term

/-!
# Triples

A triple states that a subject has an object under a predicate.  Triples are ordered by subject,
predicate and object.

## Main definitions

* `Triple` : a statement.
* `Triple.isManaged` : whether the repository itself maintains a statement.
-/

namespace LinkedStore

/-- A statement. -/
structure Triple where
  subject : Term
  predicate : Term
  object : Term
  deriving DecidableEq, Repr

namespace Triple

/-- The text shown for a statement. -/
def text (t : Triple) : String :=
  t.subject.text ++ " " ++ t.predicate.text ++ " " ++ t.object.text ++ " ."

/-- The order of statements. -/
def order (s t : Triple) : Ordering :=
  (compare s.subject t.subject).then
    ((compare s.predicate t.predicate).then (compare s.object t.object))

instance : Ord Triple := ⟨order⟩

/-- Whether the repository itself maintains a statement: any predicate in its namespace, the
containment of resources, and a type in its namespace. -/
def isManaged (t : Triple) : Bool :=
  match t.predicate with
  | .iri predicate =>
      Vocab.isManaged predicate || predicate == Vocab.Ldp.contains ||
        (predicate == Vocab.Rdf.type && t.object.iri?.any Vocab.isManaged)
  | _ => false

end Triple

end LinkedStore
