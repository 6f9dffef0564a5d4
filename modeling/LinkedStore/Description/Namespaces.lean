import LinkedStore.Address.IriMap
import LinkedStore.Stream.Basic

/-!
# Namespaces

A description may declare the prefixes of the repository and describe each namespace as a
vocabulary.  Namespaces appear as they are published.

## Main definitions

* `Description.publicNamespaces` : the prefixes that are declared, with their namespaces.
* `Description.namespaces` : the declaration and the triples.
-/

namespace LinkedStore.Description

open Vocab

/-- The prefixes that a description declares, with the namespaces as they are published. -/
def publicNamespaces (r : Reader) : Except Error (List (String × String)) := do
  pure (((← r.namespaces).filter fun entry => !hiddenPrefixes.contains entry.1).map fun entry =>
    (entry.1, publishedNamespace entry.2))

/-- A namespace as a vocabulary. -/
def vocabularyTriples (entry : String × String) : List Triple :=
  let subject := Term.iri entry.2
  [⟨subject, .iri Rdf.type, .iri Voaf.vocabulary⟩,
    ⟨subject, .iri Vann.preferredNamespacePrefix, .string entry.1⟩,
    ⟨subject, .iri Vann.preferredNamespaceUri, .string entry.2⟩]

/-- The namespaces of the repository, declared and as triples. -/
def namespaces (v : View) (x : Resource) : Except Error (Stream View) := do
  let topic ← v.subject x
  let entries ← publicNamespaces v.reader
  pure (entries.foldl (fun stream entry => stream.declare entry.1 entry.2)
    (.ofTriples topic (entries.flatMap vocabularyTriples)))

end LinkedStore.Description
