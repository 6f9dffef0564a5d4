import LinkedStore.Text.Cut

/-!
# Vocabularies

The IRIs that descriptions are written with, one namespace per vocabulary, and the prefixed names
under which the store keeps node types and properties.  The last section relates the two: which
namespace a store namespace is published under, and which IRIs the repository itself maintains.

## Main definitions

* `Vocab.Rdf`, `Vocab.Rdfs`, `Vocab.Xsd`, `Vocab.Ldp`, `Vocab.Fedora`, `Vocab.Premis`,
  `Vocab.Vann`, `Vocab.Voaf`, `Vocab.Prefer` : the IRIs of each vocabulary.
* `Vocab.Name` : prefixed names of the store.
* `Vocab.publishedNamespace`, `Vocab.storedNamespace` : the namespace of a prefix in RDF and back.
* `Vocab.splitIri` : an IRI as namespace and local name.
* `Vocab.isManaged` : whether the repository maintains what an IRI names.
-/

namespace LinkedStore.Vocab

/-! ### Published vocabularies -/

namespace Rdf

def base : String := "http://www.w3.org/1999/02/22-rdf-syntax-ns#"
def type : String := "http://www.w3.org/1999/02/22-rdf-syntax-ns#type"
def langString : String := "http://www.w3.org/1999/02/22-rdf-syntax-ns#langString"

end Rdf

namespace Rdfs

def base : String := "http://www.w3.org/2000/01/rdf-schema#"
def classOf : String := "http://www.w3.org/2000/01/rdf-schema#Class"
def label : String := "http://www.w3.org/2000/01/rdf-schema#label"
def subClassOf : String := "http://www.w3.org/2000/01/rdf-schema#subClassOf"

end Rdfs

namespace Xsd

def base : String := "http://www.w3.org/2001/XMLSchema#"
def string : String := "http://www.w3.org/2001/XMLSchema#string"
def boolean : String := "http://www.w3.org/2001/XMLSchema#boolean"
def integer : String := "http://www.w3.org/2001/XMLSchema#integer"
def long : String := "http://www.w3.org/2001/XMLSchema#long"
def double : String := "http://www.w3.org/2001/XMLSchema#double"
def decimal : String := "http://www.w3.org/2001/XMLSchema#decimal"
def dateTime : String := "http://www.w3.org/2001/XMLSchema#dateTime"

end Xsd

namespace Ldp

def base : String := "http://www.w3.org/ns/ldp#"
def rdfSource : String := "http://www.w3.org/ns/ldp#RDFSource"
def nonRdfSource : String := "http://www.w3.org/ns/ldp#NonRDFSource"
def container : String := "http://www.w3.org/ns/ldp#Container"
def basicContainer : String := "http://www.w3.org/ns/ldp#BasicContainer"
def contains : String := "http://www.w3.org/ns/ldp#contains"

/-- The fixed membership predicate of basic containers. -/
def member : String := "http://www.w3.org/ns/ldp#member"

/-- The inserted-content relation that stands for the member itself. -/
def memberSubject : String := "http://www.w3.org/ns/ldp#MemberSubject"

end Ldp

namespace Fedora

def base : String := "http://fedora.info/definitions/v4/repository#"
def hasParent : String := "http://fedora.info/definitions/v4/repository#hasParent"
def hasVersion : String := "http://fedora.info/definitions/v4/repository#hasVersion"
def hasVersionLabel : String := "http://fedora.info/definitions/v4/repository#hasVersionLabel"
def created : String := "http://fedora.info/definitions/v4/repository#created"

/-- The outcome of one fixity check. -/
def status : String := "http://fedora.info/definitions/v4/repository#status"

/-- Asks for the references of other resources. -/
def inboundReferences : String :=
  "http://fedora.info/definitions/v4/repository#InboundReferences"

/-- Asks for the triples that the repository maintains. -/
def serverManaged : String := "http://fedora.info/definitions/v4/repository#ServerManaged"

/-- Asks for embedded resources: hash fragments and blank nodes. -/
def embedResources : String := "http://fedora.info/definitions/v4/repository#EmbedResources"

/-- Asks for the list of versions. -/
def preferVersions : String := "http://fedora.info/definitions/v4/repository#PreferVersions"

end Fedora

namespace Premis

def base : String := "http://www.loc.gov/premis/rdf/v1#"
def hasFixity : String := "http://www.loc.gov/premis/rdf/v1#hasFixity"
def fixity : String := "http://www.loc.gov/premis/rdf/v1#Fixity"
def hasMessageDigest : String := "http://www.loc.gov/premis/rdf/v1#hasMessageDigest"
def hasSize : String := "http://www.loc.gov/premis/rdf/v1#hasSize"
def hasContentLocation : String := "http://www.loc.gov/premis/rdf/v1#hasContentLocation"
def contentLocation : String := "http://www.loc.gov/premis/rdf/v1#ContentLocation"
def hasContentLocationValue : String :=
  "http://www.loc.gov/premis/rdf/v1#hasContentLocationValue"

end Premis

namespace Vann

def preferredNamespacePrefix : String := "http://purl.org/vocab/vann/preferredNamespacePrefix"
def preferredNamespaceUri : String := "http://purl.org/vocab/vann/preferredNamespaceUri"

end Vann

namespace Voaf

def vocabulary : String := "http://purl.org/vocommons/voaf#Vocabulary"

end Voaf

namespace Prefer

/-- Asks for the triples on contained resources. -/
def containment : String := "http://www.w3.org/ns/ldp#PreferContainment"

/-- Asks for membership triples. -/
def membership : String := "http://www.w3.org/ns/ldp#PreferMembership"

/-- Asks for the container alone. -/
def minimalContainer : String := "http://www.w3.org/ns/ldp#PreferMinimalContainer"

end Prefer

/-! ### Names of the store -/

namespace Name

def jcrNamespace : String := "http://www.jcp.org/jcr/1.0"
def ntNamespace : String := "http://www.jcp.org/jcr/nt/1.0"
def mixNamespace : String := "http://www.jcp.org/jcr/mix/1.0"
def modeNamespace : String := "http://www.modeshape.org/1.0"

/-- The mark between a prefix and a local name. -/
def separator : Char := ':'

/-- The ending of a reference property that shadows a property with an IRI value. -/
def shadowEnding : String := "_ref"

/-- The child that holds hash-fragment resources. -/
def hashHolder : String := "#"

/-- The child of a description that holds the content of the binary. -/
def content : String := "jcr:content"

/-- The property of a content node that holds the bytes. -/
def data : String := "jcr:data"

/-- A path segment that marks frozen nodes. -/
def frozenNode : String := "jcr:frozenNode"

/-- The identifier of the node that a frozen node was copied from. -/
def frozenUuid : String := "jcr:frozenUuid"

/-- The primary type of the node that a frozen node was copied from. -/
def frozenPrimaryType : String := "jcr:frozenPrimaryType"

/-- The mixin types of the node that a frozen node was copied from. -/
def frozenMixinTypes : String := "jcr:frozenMixinTypes"

def uuid : String := "jcr:uuid"
def created : String := "jcr:created"
def createdBy : String := "jcr:createdBy"
def lastModified : String := "jcr:lastModified"
def lastModifiedBy : String := "jcr:lastModifiedBy"
def mimeType : String := "jcr:mimeType"

def ntBase : String := "nt:base"
def ntHierarchyNode : String := "nt:hierarchyNode"
def ntFolder : String := "nt:folder"
def ntFile : String := "nt:file"
def ntResource : String := "nt:resource"
def ntFrozenNode : String := "nt:frozenNode"
def ntUnstructured : String := "nt:unstructured"
def mixVersionable : String := "mix:versionable"
def mixReferenceable : String := "mix:referenceable"
def mixSimpleVersionable : String := "mix:simpleVersionable"
def mixCreated : String := "mix:created"
def mixLastModified : String := "mix:lastModified"
def modeRoot : String := "mode:root"
def modeSystem : String := "mode:system"

def fedoraResource : String := "fedora:Resource"
def fedoraContainer : String := "fedora:Container"
def fedoraBinary : String := "fedora:Binary"
def fedoraDescription : String := "fedora:NonRdfSourceDescription"
def fedoraBlanknode : String := "fedora:Blanknode"
def fedoraPairtree : String := "fedora:Pairtree"
def fedoraTombstone : String := "fedora:Tombstone"

def ldpBasicContainer : String := "ldp:BasicContainer"
def ldpDirectContainer : String := "ldp:DirectContainer"
def ldpIndirectContainer : String := "ldp:IndirectContainer"
def ldpMembershipResource : String := "ldp:membershipResource"
def ldpHasMemberRelation : String := "ldp:hasMemberRelation"
def ldpIsMemberOfRelation : String := "ldp:isMemberOfRelation"
def ldpInsertedContentRelation : String := "ldp:insertedContentRelation"

/-- The property of a content node that holds the digest of its bytes. -/
def contentDigest : String := "premis:hasMessageDigest"

/-- The property of a content node that holds the number of its bytes. -/
def contentSize : String := "premis:hasSize"

/-- The child under which the frozen copies of a node are kept. -/
def versionsHolder : String := "fcr:versions"

/-- The version at the start of every history. -/
def rootVersion : String := "jcr:rootVersion"

end Name

/-- Protected properties that are published all the same. -/
def exposedProtected : List String :=
  [Name.created, Name.createdBy, Name.lastModified, Name.lastModifiedBy, Name.mimeType]

/-! ### Namespaces -/

/-- The prefixes that every repository starts with. -/
def defaultPrefixes : List (String × String) :=
  [("jcr", Name.jcrNamespace), ("nt", Name.ntNamespace), ("mix", Name.mixNamespace),
    ("mode", Name.modeNamespace), ("fedora", Fedora.base), ("ldp", Ldp.base),
    ("premis", Premis.base), ("rdf", Rdf.base), ("rdfs", Rdfs.base), ("xsd", Xsd.base)]

/-- The prefixes that no description declares. -/
def hiddenPrefixes : List String := ["", "jcr"]

/-- The namespace under which names of a store namespace are published: the repository's own
for `jcr:` names, and the store namespace itself for all others. -/
def publishedNamespace (ns : String) : String :=
  if ns = Name.jcrNamespace then Fedora.base else ns

/-- The store namespace behind a published namespace. -/
def storedNamespace (ns : String) : String :=
  if ns = Fedora.base then Name.jcrNamespace else ns

/-- An IRI as namespace and local name, cut behind the last `#` or `/`.  There is none if the
local name would be empty. -/
def splitIri (iri : String) : Option (String × String) :=
  let backwards := iri.toList.reverse
  let isMark (c : Char) : Bool := c == '#' || c == '/'
  let name := (backwards.takeWhile fun c => !isMark c).reverse
  let ns := (backwards.dropWhile fun c => !isMark c).reverse
  if ns.isEmpty || name.isEmpty then none else some (String.ofList ns, String.ofList name)

/-- Whether an IRI lies in the namespace that the repository maintains. -/
def isManaged (iri : String) : Bool :=
  Text.startsWith Fedora.base.toList iri.toList

end LinkedStore.Vocab
