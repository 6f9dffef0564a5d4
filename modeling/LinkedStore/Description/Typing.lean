import LinkedStore.Description.Values
import LinkedStore.Stream.Basic

/-!
# Types of a resource

A resource has the types of the interaction model, which follow from its role, and the types of its
node, declared ones and all above them.

## Main definitions

* `Description.model` : the types of the interaction model.
* `Description.types` : the types of the node.
-/

namespace LinkedStore.Description

/-- The statement that a resource has a type. -/
def typed (subject : Term) (type : String) : Triple := ⟨subject, .iri Vocab.Rdf.type, .iri type⟩

/-- The types of the interaction model.  A container that the repository did not create is a basic
one. -/
def modelTypes (v : View) (x : Resource) : Except Error (List String) := do
  match x.kind with
  | .binary | .description => pure [Vocab.Ldp.nonRdfSource]
  | .placeholder => pure [Vocab.Ldp.rdfSource]
  | .container =>
      if ← x.hasType v.reader Vocab.Name.fedoraContainer then
        pure [Vocab.Ldp.rdfSource, Vocab.Ldp.container]
      else pure [Vocab.Ldp.rdfSource, Vocab.Ldp.container, Vocab.Ldp.basicContainer]

/-- The types of the interaction model, as triples. -/
def model (v : View) (x : Resource) : Except Error (Stream View) := do
  let topic ← v.subject x
  pure (.ofTriples topic ((← modelTypes v x).map (typed topic)))

/-- The IRIs of the types of a node, each once. -/
def typeIris (v : View) (x : Resource) : Except Error (List String) := do
  let names ← x.types v.reader
  let iris ← names.mapM (Naming.iri v.reader)
  pure (TypeClosure.fresh [] iris)

/-- The types of a node and all types above them, as triples. -/
def types (v : View) (x : Resource) : Except Error (Stream View) := do
  let topic ← v.subject x
  pure (.ofTriples topic ((← typeIris v x).map (typed topic)))

end LinkedStore.Description
