import LinkedStore.Address.IriMap
import LinkedStore.Calendar.Stamp
import LinkedStore.Rdf.Triple
import LinkedStore.Resource.Naming

/-!
# Values and properties in RDF

A value of the store becomes a term: a literal, an IRI, or the term of the resource that it points
at.  A property becomes one triple per value, under the IRI of its public name.  Some properties
are the store's own and are never published.

## Main definitions

* `Value.term?` : the term of a value that points at no node.
* `View.termOf?` : the term of any value.
* `View.propertyTriples` : the triples of a property.
* `Property.isHidden` : whether a property is left out of descriptions.
-/

namespace LinkedStore

/-! ### Values that point at no node -/

/-- A point in time, to the millisecond. -/
def Instant.literal (t : Instant) : Term := .typed t.millisStamp Vocab.Xsd.dateTime

namespace Value

/-- What stands between the lexical form and the datatype in text that holds a typed literal. -/
def typedMark : String := "\u001e^^\u001e"

/-- The literal of text: typed, if the text names a datatype, and plain otherwise. -/
def textLiteral (text : String) : Term :=
  match Text.cutAt typedMark.toList text.toList with
  | some (lexical, c :: datatype) =>
      .typed (String.ofList lexical) (String.ofList (c :: datatype))
  | _ => .string text

/-- The term of a value that points at no node. -/
def term? : Value → Option Term
  | string s => some (textLiteral s)
  | boolean b => some (.boolean b)
  | long n => some (.long n)
  | double x => some (.double x)
  | decimal lexical => some (.typed lexical Vocab.Xsd.decimal)
  | date t => some t.literal
  | uri iri => some (.iri iri)
  | name n => some (.string n)
  | binary bytes => some (.string (Text.decodeLossy bytes))
  | path _ | reference _ | weakReference _ => none

theorem term?_eq_none_iff {v : Value} : v.term? = none ↔ v.isNodePointer = true := by
  cases v <;> simp [term?, isNodePointer]

end Value

/-! ### All values -/

namespace View

/-- The resource that a value points at, if it is there. -/
def target? (v : View) : Value → Except Error (Option Resource)
  | .path path => Resource.at? v.reader path
  | .reference identifier | .weakReference identifier =>
      Resource.byIdentifier? v.reader identifier
  | _ => pure none

/-- The term of a value whose target is gone: a path keeps its own, a weak reference has none, and
a strong reference fails. -/
def danglingTerm? (v : View) : Value → Except Error (Option Term)
  | .path path => some <$> v.termForPath path
  | .reference identifier => throw (.notFound (.referenceTarget identifier))
  | _ => pure none

/-- The term of a value, if it has one. -/
def termOf? (v : View) (value : Value) : Except Error (Option Term) := do
  match value.term? with
  | some term => pure (some term)
  | none =>
      match ← v.target? value with
      | some x => some <$> v.subject x
      | none => v.danglingTerm? value

/-- The terms of a list of values. -/
def termsOf (v : View) : List Value → Except Error (List Term)
  | [] => pure []
  | value :: rest => do
      let term ← v.termOf? value
      pure (term.toList ++ (← v.termsOf rest))

end View

/-! ### Properties -/

namespace Property

/-- A term in the language of a property. -/
def tagged (p : Property) (t : Term) : Term :=
  match p.language? with
  | some language => t.withLanguage language
  | none => t

/-- Whether a property is left out of descriptions: the bytes of a binary, a shadow, and whatever
only the store may change, a few properties excepted.  On a frozen node everything is guarded, and
nothing is left out for that. -/
def isHidden (p : Property) (frozen : Bool) : Bool :=
  p.isBinaryContent || p.isShadow ||
    (p.guarded && !frozen && !Vocab.exposedProtected.contains p.name)

end Property

namespace View

/-- The triples of a property: one per value, under the IRI of the public name. -/
def propertyTriples (v : View) (subject : Term) (p : Property) : Except Error (List Triple) := do
  let predicate ← Naming.iri v.reader p.publicName
  let objects ← v.termsOf p.values
  pure (objects.map fun object => ⟨subject, .iri predicate, p.tagged object⟩)

end View

end LinkedStore
