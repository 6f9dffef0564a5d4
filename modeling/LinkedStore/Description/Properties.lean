import LinkedStore.Description.Values
import LinkedStore.Stream.Basic

/-!
# Own properties and inbound references

A resource is described by its own properties, those of both halves for a binary, and by the
properties of others that refer to it.  Both are listed as streams that read one node after the
other.

## Main definitions

* `Description.properties` : what a resource states about itself.
* `Description.references` : what other resources state about it.
-/

namespace LinkedStore.Description

/-! ### Own properties -/

/-- The triples of a property, unless it is hidden. -/
def visibleTriples (subject : Term) (frozen : Bool) (p : Property) (v : View) :
    Except Error (Stream View) := do
  if p.isHidden frozen then pure .empty
  else pure (.ofTriples subject (← v.propertyTriples subject p))

/-- The triples of the visible properties of one node. -/
def nodeProperties (subject : Term) (owner : Resource) (v : View) :
    Except Error (Stream View) := do
  let listing ← owner.properties v.reader
  pure (.flatMap subject listing (visibleTriples subject owner.node.isFrozen))

/-- The triples of the visible properties of a resource. -/
def properties (v : View) (x : Resource) : Except Error (Stream View) := do
  let topic ← v.subject x
  let owners ← x.halves v.reader
  pure (.flatMap topic (owners.map .ok) (nodeProperties topic))

/-! ### Inbound references -/

/-- The property with only those values that refer to a node. -/
def pointingAt (identifier : String) (p : Property) : Property :=
  { p with
    values := p.values.filter fun value =>
      ReferenceKind.all.includes value && value.text? == some identifier }

/-- What the owner of a property states with it about a node; nothing, if the owner is gone. -/
def referenceTriples (identifier : String) (p : Property) (v : View) :
    Except Error (Stream View) := do
  match ← Resource.at? v.reader p.owner with
  | none => pure .empty
  | some owner =>
      let subject ← v.subject owner
      pure (.ofTriples subject (← v.propertyTriples subject (pointingAt identifier p)))

/-- What is stated about one node. -/
def nodeReferences (topic : Term) (target : Resource) (v : View) :
    Except Error (Stream View) := do
  let listing ← v.reader.references target.path .all
  pure (.flatMap topic listing (referenceTriples target.node.identifier))

/-- What other resources state about a resource. -/
def references (v : View) (x : Resource) : Except Error (Stream View) := do
  let topic ← v.subject x
  let targets ← x.halves v.reader
  pure (.flatMap topic (targets.map .ok) (nodeReferences topic))

end LinkedStore.Description
