import LinkedStore.Address.Scope
import LinkedStore.Rdf.Term
import LinkedStore.Resource.Basic

/-!
# IRIs of resources

A resource is addressed by a base, the segment of its scope, and its path, with two exceptions.
The content of a binary has the path of its description, and the description itself has a segment
for metadata behind it.  A hash-fragment resource has the IRI of its owner and a fragment.

## Main definitions

* `IriMap` : the text before the path of every IRI.
* `IriMap.toInternal`, `IriMap.toExternal` : the path of an IRI and back.
* `View` : what triples are generated from, a reader and the terms of paths.
* `View.subject` : the term of a resource.
-/

namespace LinkedStore

/-- The mapping between IRIs and paths, given by the text before the path of every IRI. -/
structure IriMap where
  lead : String
  deriving DecidableEq, Repr

namespace IriMap

/-- The segment behind the path of a description. -/
def metadataSegment : String := "fcr:metadata"

/-- The mapping of a base and a scope.  Slashes at the end of the base do not count. -/
def ofBase (base : String) (scope : Scope) : IriMap :=
  let trimmed := Text.trimEnd '/' base.toList
  match scope.segment? with
  | some segment => ⟨String.ofList (trimmed ++ '/' :: segment.toList)⟩
  | none => ⟨String.ofList trimmed⟩

/-- The path part of an IRI of the mapping: what follows the lead, if it begins with a slash. -/
def rest? (m : IriMap) (iri : String) : Option (List Char) :=
  match Text.after? m.lead.toList iri.toList with
  | some ('/' :: rest) => some ('/' :: rest)
  | _ => none

/-- Whether an IRI is one of the mapping's. -/
def inDomain (m : IriMap) (iri : String) : Bool := (m.rest? iri).isSome

/-- Whether the node at a path is the description of a binary. -/
def isDescription (r : Reader) (path : String) : Except Error Bool := do
  pure ((← r.node path).any fun n =>
    n.declares Vocab.Name.fedoraDescription || n.primaryType == Vocab.Name.ntFile)

/-- Whether a path has a segment that is not to be addressed. -/
def hasInternalSegment (path : List Char) : Bool :=
  (Text.pieces '/' path).any (Text.startsWith "jcr:".toList)

/-- The path of the resource that a path part without a fragment addresses. -/
def resolve (r : Reader) (part : List Char) : Except Error (Option String) := do
  match Text.before? ('/' :: metadataSegment.toList) part with
  | some described =>
      let path := String.ofList described
      if described.isEmpty then pure none
      else if ← isDescription r path then pure (some path)
      else pure none
  | none =>
      let path := String.ofList part
      if ← isDescription r path then pure (some (Path.child path Vocab.Name.content))
      else pure (some path)

/-- The path that an IRI names, if it names one. -/
def toInternal (m : IriMap) (r : Reader) (iri : String) : Except Error (Option String) := do
  match m.rest? iri with
  | none => pure none
  | some rest =>
      let (part, fragment) :=
        match Text.cutFirst '#' rest with
        | some (part, fragment) => (part, some fragment)
        | none => (rest, none)
      if hasInternalSegment part then pure none
      else
        let path ← resolve r part
        match fragment with
        | none => pure path
        | some fragment =>
            pure (path.map fun path =>
              Path.child (Path.child path Vocab.Name.hashHolder) (String.ofList fragment))

/-- What stands between an owner and a fragment in the path of a hash-fragment resource. -/
def holderMark : List Char := ('/' :: Vocab.Name.hashHolder.toList) ++ ['/']

/-- The IRI of a path without a holder of hash fragments. -/
def addressOf (m : IriMap) (r : Reader) (path : String) : Except Error String := do
  match Text.before? ('/' :: Vocab.Name.content.toList) path.toList with
  | some (c :: description) => pure (m.lead ++ String.ofList (c :: description))
  | _ =>
      if ← isDescription r path then pure (m.lead ++ path ++ "/" ++ metadataSegment)
      else pure (m.lead ++ path)

/-- The IRI of a path. -/
def toExternal (m : IriMap) (r : Reader) (path : String) : Except Error String := do
  match Text.cutAt holderMark path.toList with
  | some (owner, fragment) =>
      let owner := if owner.isEmpty then "/" else String.ofList owner
      pure ((← m.addressOf r owner) ++ "#" ++ String.ofList fragment)
  | none => m.addressOf r path

end IriMap

/-! ### Views -/

/-- What triples are generated from at one moment: what a session answers, and how paths are
named. -/
structure View where
  reader : Reader
  /-- Whether an IRI names something in the repository. -/
  inDomain : String → Bool
  /-- The term of a path. -/
  termForPath : String → Except Error Term

namespace View

/-- The view whose terms are the IRIs of a mapping. -/
def ofMap (m : IriMap) (r : Reader) : View where
  reader := r
  inDomain := m.inDomain
  termForPath path := .iri <$> m.toExternal r path

/-- The view whose terms are blank nodes labelled with paths. -/
def blank (m : IriMap) (r : Reader) : View where
  reader := r
  inDomain := m.inDomain
  termForPath path := pure (.blank path)

/-- The term of a resource.  Both halves of a binary have the term of the binary. -/
def subject (v : View) (x : Resource) : Except Error Term := do
  v.termForPath (← x.described v.reader).path

end View

end LinkedStore
