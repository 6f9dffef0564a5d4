import LinkedStore.Vocab

/-!
# Aspects and selections

A description is assembled from aspects of a resource.  A selection says which of them are wanted,
and whether triples that the repository itself maintains are.  A client states preferences as two
lists of IRIs, what to include and what to omit; what is in both is omitted.

## Main definitions

* `Aspect` : what a resource can be described by.
* `Selection` : which aspects are wanted.
* `Selection.ofPreferences` : the selection of a client's preferences.
-/

namespace LinkedStore

/-- What a resource can be described by. -/
inductive Aspect where
  /-- The types of the interaction model. -/
  | model
  | types
  | properties
  | parent
  | children
  | membership
  | isMemberOf
  | references
  | versions
  /-- Hash-fragment resources. -/
  | hash
  | blankNodes
  | namespaces
  deriving DecidableEq, Repr

namespace Aspect

/-- All aspects, in the order in which a description lists them. -/
def all : List Aspect :=
  [model, types, properties, parent, children, membership, isMemberOf, references, versions,
    hash, blankNodes, namespaces]

theorem mem_all (a : Aspect) : a ∈ all := by
  cases a <;> decide

/-- The word for an aspect. -/
def word : Aspect → String
  | model => "ldp"
  | types => "type"
  | properties => "properties"
  | parent => "parent"
  | children => "children"
  | membership => "membership"
  | isMemberOf => "is_member_of"
  | references => "references"
  | versions => "versions"
  | hash => "hash"
  | blankNodes => "blank_nodes"
  | namespaces => "namespaces"

/-- The aspect of a word. -/
def ofWord? (word : String) : Option Aspect := all.find? fun a => a.word == word

/-- The aspects that a preference is about. -/
def ofPreference (iri : String) : List Aspect :=
  if iri = Vocab.Prefer.containment then [children]
  else if iri = Vocab.Prefer.membership then [membership, isMemberOf]
  else if iri = Vocab.Fedora.inboundReferences then [references]
  else if iri = Vocab.Fedora.embedResources then [hash, blankNodes]
  else if iri = Vocab.Fedora.preferVersions then [versions]
  else []

end Aspect

/-- Which aspects of a resource are wanted. -/
@[ext] structure Selection where
  includes : Aspect → Bool
  /-- Whether triples that the repository itself maintains are wanted. -/
  managed : Bool

namespace Selection

/-- The selection of a list of aspects. -/
def ofAspects (aspects : List Aspect) (managed : Bool) : Selection := ⟨aspects.contains, managed⟩

/-- The selection with one aspect more. -/
def add (s : Selection) (a : Aspect) : Selection :=
  { s with includes := fun b => b == a || s.includes b }

/-- The selection with one aspect less. -/
def drop (s : Selection) (a : Aspect) : Selection :=
  { s with includes := fun b => b != a && s.includes b }

/-- The wanted aspects, in the order in which a description lists them. -/
def aspects (s : Selection) : List Aspect := Aspect.all.filter s.includes

/-- Everything. -/
def everything : Selection := ⟨fun _ => true, true⟩

/-- Everything but references and versions. -/
def standard : Selection := (everything.drop .references).drop .versions

/-- The resource alone, without what it contains, its members and what is embedded in it. -/
def minimal : Selection :=
  [Aspect.children, .membership, .isMemberOf, .hash, .blankNodes].foldl drop standard

/-! ### Preferences -/

/-- The selection with what a preference asks for. -/
def including (s : Selection) (iri : String) : Selection :=
  (Aspect.ofPreference iri).foldl add
    { s with managed := s.managed || iri == Vocab.Fedora.serverManaged }

/-- The selection without what a preference is about. -/
def omitting (s : Selection) (iri : String) : Selection :=
  (Aspect.ofPreference iri).foldl drop
    { s with managed := s.managed && iri != Vocab.Fedora.serverManaged }

/-- The selection of a client's preferences: the standard one, or the minimal one if that is asked
for, with what is to be included and without what is to be omitted. -/
def ofPreferences (wanted unwanted : List String) : Selection :=
  let base := if wanted.contains Vocab.Prefer.minimalContainer then minimal else standard
  unwanted.foldl omitting (wanted.foldl including base)

end Selection

end LinkedStore
