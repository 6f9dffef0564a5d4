import LinkedStore.Description.Aspect
import LinkedStore.Description.Embedding
import LinkedStore.Description.Membership
import LinkedStore.Description.Namespaces
import LinkedStore.Description.Place
import LinkedStore.Description.Versions

/-!
# Descriptions

The description of a resource is what the selected aspects say about it, one after the other.  An
aspect is worked out when the stream reaches it; only the namespaces are worked out at once,
because a writer declares prefixes before the first triple.

## Main definitions

* `Description.generate` : what one aspect says.
* `Description.describe` : what the selected aspects say.
-/

namespace LinkedStore.Description

/-- What one aspect says about a resource. -/
def generate : Aspect → View → Resource → Except Error (Stream View)
  | .model => model
  | .types => types
  | .properties => properties
  | .parent => parent
  | .children => children
  | .membership => membership
  | .isMemberOf => isMemberOf
  | .references => references
  | .versions => versions
  | .hash => hashFragments
  | .blankNodes => blankNodes
  | .namespaces => namespaces

/-- One part of a description. -/
def part (v : View) (x : Resource) (topic : Term) (a : Aspect) : Except Error (Stream View) :=
  if a = .namespaces then namespaces v x
  else pure (.lazy topic fun v => generate a v x)

/-- The parts of a description, one after the other. -/
def parts (v : View) (x : Resource) (topic : Term) (aspects : List Aspect) :
    Except Error (Stream View) := do
  pure ((← aspects.mapM (part v x topic)).foldl .concat (.ofTriples topic []))

/-- The description of a resource. -/
def describe (v : View) (x : Resource) (s : Selection) : Except Error (Stream View) := do
  let topic ← v.subject x
  let whole ← parts v x topic s.aspects
  pure (if s.managed then whole else whole.filter fun t => !t.isManaged)

end LinkedStore.Description
