import LinkedStore.Description.Values
import LinkedStore.Stream.Basic

/-!
# The place of a resource

A resource is described by what contains it and by what it contains.

## Main definitions

* `Description.parent` : the container of a resource.
* `Description.children` : what a resource contains.
-/

namespace LinkedStore.Description

/-- Whether a resource states what contains it.  The root does not, and neither does the snapshot
of a resource that has versions. -/
def statesParent (v : View) (x : Resource) : Except Error Bool := do
  if x.node.isRoot then pure false
  else if x.node.isFrozen then
    match ← x.unfrozen v.reader with
    | some live => not <$> live.hasType v.reader Vocab.Name.mixVersionable
    | none => pure true
  else pure true

/-- The container that a resource states. -/
def statedParent (v : View) (x : Resource) : Except Error (Option Resource) := do
  if ← statesParent v x then x.container v.reader else pure none

/-- The container of a resource, as a triple. -/
def parent (v : View) (x : Resource) : Except Error (Stream View) := do
  let topic ← v.subject x
  match ← statedParent v x with
  | some container =>
      pure (.ofTriples topic [⟨topic, .iri Vocab.Fedora.hasParent, ← v.subject container⟩])
  | none => pure (.ofTriples topic [])

/-- The statement that a resource contains another one. -/
def containment (topic : Term) (item : Except Error Node) (v : View) : Except Error Triple := do
  let child ← Resource.ofNode v.reader (← item)
  pure ⟨topic, .iri Vocab.Ldp.contains, ← v.subject child⟩

/-- What a resource contains, one triple per child. -/
def children (v : View) (x : Resource) : Except Error (Stream View) := do
  let topic ← v.subject x
  let nodes ← x.childNodes v.reader
  pure (.ofFlow topic (.deferEach nodes (containment topic)))

end LinkedStore.Description
