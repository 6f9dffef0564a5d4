import LinkedStore.Address.IriMap
import LinkedStore.Resource.Naming
import LinkedStore.Stream.Basic

/-!
# The type system

The node types of a repository are described as classes.  The stream has no topic and declares the
prefixes that it is written with.

## Main definitions

* `Description.typeSystem` : the node types of a repository as classes.
-/

namespace LinkedStore.Description

open Vocab

/-- A node type as a class, below its supertypes. -/
def classTriples (r : Reader) (type : NodeType) : Except Error (List Triple) := do
  let subject := Term.iri (← Naming.iri r type.name)
  let above ← type.supertypes.mapM (Naming.iri r)
  pure
    (above.map (fun iri => ⟨subject, .iri Rdfs.subClassOf, .iri iri⟩) ++
      [⟨subject, .iri Rdf.type, .iri Rdfs.classOf⟩, ⟨subject, .iri Rdfs.label, .string type.name⟩])

/-- The classes of a list of node types, each worked out when it is pulled. -/
def classFlow (types : List (Except Error NodeType)) : Flow View Triple :=
  .each types fun type =>
    .defer fun v => (classTriples v.reader type).map fun triples => .ofList (triples.map .ok)

/-- The stream without triples that declares the prefixes of the type system. -/
def typeSystemHead : Stream View :=
  (Stream.empty.declare "rdf" Rdf.base).declare "rdfs" Rdfs.base

/-- The node types of a repository as classes. -/
def typeSystem (r : Reader) : Except Error (Stream View) := do
  pure { typeSystemHead with flow := classFlow (← r.nodeTypes) }

end LinkedStore.Description
