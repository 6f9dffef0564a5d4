import LinkedStore.Store.Path
import LinkedStore.Store.Value

/-!
# Properties

A property is a named list of values on a node.  A property that shadows one with IRI values holds
the reference behind the IRI, and its name has an ending of its own; a name may end in a language.

## Main definitions

* `Property` : a named list of values.
* `Property.publicName` : the name under which a property is published.
* `Property.language?` : the language that a name ends in.
-/

namespace LinkedStore

/-- A named property of a node. -/
structure Property where
  /-- The path of the node. -/
  owner : String
  name : String
  type : ValueType
  values : List Value
  multiple : Bool
  /-- Whether only the store itself may change the property. -/
  guarded : Bool
  deriving DecidableEq, Repr

namespace Property

/-- A property with one value. -/
def single (owner name : String) (value : Value) : Property :=
  ⟨owner, name, value.type, [value], false, false⟩

/-- A property with any number of values.  Its type is that of the first value, and text if there
is none. -/
def many (owner name : String) (values : List Value) : Property :=
  ⟨owner, name, (values.head?.map Value.type).getD .string, values, true, false⟩

/-- The property, guarded. -/
def guard (p : Property) : Property := { p with guarded := true }

/-- The first value. -/
def value? (p : Property) : Option Value := p.values.head?

/-- Whether the property holds the bytes of a binary. -/
def isBinaryContent (p : Property) : Bool :=
  p.type == .binary && p.name == Vocab.Name.data

/-- Whether the property shadows one with IRI values. -/
def isShadow (p : Property) : Bool :=
  (p.type == .reference || p.type == .weakReference) &&
    (Text.before? Vocab.Name.shadowEnding.toList p.name.toList).isSome

/-- The name without the ending of a shadow. -/
def publicName (p : Property) : String :=
  if p.isShadow then
    ((Text.before? Vocab.Name.shadowEnding.toList p.name.toList).map String.ofList).getD p.name
  else p.name

/-- What follows the first `@` of the name, if there is something on both sides of it. -/
def language? (p : Property) : Option String :=
  match Text.cutFirst '@' p.name.toList with
  | some (_ :: _, c :: rest) => some (String.ofList (c :: rest))
  | _ => none

end Property

end LinkedStore
