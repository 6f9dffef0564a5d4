import LinkedStore.Resource.TypeClosure

/-!
# Resources

A resource is a node in the role that its types give it.  A binary and its description are two
nodes of one resource; a frozen node has the types that were recorded when it was frozen.  Some
nodes are the store's own and are neither containers nor children.

## Main definitions

* `ResourceKind`, `ContainerVariant` : the roles.
* `Resource` : a node in its role.
* `Resource.described`, `Resource.description`, `Resource.halves` : the two halves of a binary.
* `Resource.container` : the nearest addressable resource above.
* `Resource.children`, `Resource.hashChildren` : what lies below.
* `Resource.fixity` : the copies of a binary, compared with what was recorded.
-/

namespace LinkedStore

/-- The role of a node. -/
inductive ResourceKind where
  /-- A source of triples that may hold children. -/
  | container
  /-- The content of a binary. -/
  | binary
  /-- The description of a binary, above its content. -/
  | description
  /-- A node without a role of its own. -/
  | placeholder
  deriving DecidableEq, Repr

/-- How a container asserts membership. -/
inductive ContainerVariant where
  | basic
  | direct
  | indirect
  deriving DecidableEq, Repr

/-- The variant that a list of types names: indirect before direct before basic. -/
def ContainerVariant.ofTypes (types : List String) : Option ContainerVariant :=
  if types.contains Vocab.Name.ldpIndirectContainer then some .indirect
  else if types.contains Vocab.Name.ldpDirectContainer then some .direct
  else if types.contains Vocab.Name.ldpBasicContainer then some .basic
  else none

namespace ResourceKind

open Vocab.Name

/-- The role that a list of declared types gives. -/
def ofTypes (types : List String) : ResourceKind :=
  let has (name : String) : Bool := types.contains name
  if has fedoraDescription || has ntFile then .description
  else if has fedoraBinary || has ntResource then .binary
  else if has fedoraPairtree || has fedoraBlanknode || has fedoraTombstone then .placeholder
  else if has fedoraContainer || has modeRoot || has ntFolder || has ntUnstructured ||
      (ContainerVariant.ofTypes types).isSome then .container
  else .placeholder

end ResourceKind

/-! ### Nodes -/

namespace Node

/-- Whether the node is a snapshot of another one. -/
def isFrozen (n : Node) : Bool :=
  n.primaryType == Vocab.Name.ntFrozenNode ||
    (Path.segments n.path).contains Vocab.Name.frozenNode

/-- The types that a frozen node has recorded under a name. -/
def recordedTypes (r : Reader) (n : Node) (name : String) : Except Error (List String) := do
  match ← r.property n.path name with
  | some p => pure (p.values.filterMap Value.text?)
  | none => pure []

/-- The types that a node declares; those of the node it was copied from, if it is frozen and has
recorded any. -/
def declaredTypes (r : Reader) (n : Node) : Except Error (List String) := do
  if n.isFrozen then
    let primary ← n.recordedTypes r Vocab.Name.frozenPrimaryType
    let mixins ← n.recordedTypes r Vocab.Name.frozenMixinTypes
    let types := primary ++ mixins
    if types.isEmpty then pure n.types else pure types
  else pure n.types

end Node

/-- A node in its role. -/
structure Resource where
  node : Node
  kind : ResourceKind
  /-- The workspace that the node was read from. -/
  workspace : String
  deriving DecidableEq, Repr

namespace Resource

/-! ### Finding resources -/

/-- A node in the role that its declared types give it. -/
def ofNode (r : Reader) (n : Node) : Except Error Resource := do
  pure ⟨n, .ofTypes (← n.declaredTypes r), r.workspace⟩

/-- The resource at a path, if there is a node. -/
def at? (r : Reader) (path : String) : Except Error (Option Resource) := do
  match ← r.node path with
  | some n => some <$> ofNode r n
  | none => pure none

/-- The resource at a path, which has to be there. -/
def require (r : Reader) (path : String) : Except Error Resource := do
  match ← at? r path with
  | some found => pure found
  | none => throw (.notFound (.resource path))

/-- The resource with an identifier, if there is a node. -/
def byIdentifier? (r : Reader) (identifier : String) : Except Error (Option Resource) := do
  match ← r.nodeByIdentifier identifier with
  | some n => some <$> ofNode r n
  | none => pure none

/-! ### Types -/

def path (x : Resource) : String := x.node.path

/-- Two resources are the same if they are equal nodes of one workspace. -/
def isSame (x y : Resource) : Bool := x.node == y.node && x.workspace == y.workspace

/-- The declared types and all types above them. -/
def types (r : Reader) (x : Resource) : Except Error (List String) := do
  TypeClosure.close r (← x.node.declaredTypes r)

def hasType (r : Reader) (x : Resource) (name : String) : Except Error Bool := do
  pure ((← x.types r).contains name)

def declares (r : Reader) (x : Resource) (name : String) : Except Error Bool := do
  pure ((← x.node.declaredTypes r).contains name)

def isBlankNode (r : Reader) (x : Resource) : Except Error Bool :=
  x.declares r Vocab.Name.fedoraBlanknode

/-- How the resource asserts membership, types above the declared ones included. -/
def variant (r : Reader) (x : Resource) : Except Error (Option ContainerVariant) := do
  pure (ContainerVariant.ofTypes (← x.types r))

/-! ### Properties -/

def properties (r : Reader) (x : Resource) : Listing Property := r.properties x.path

def property (r : Reader) (x : Resource) (name : String) : Except Error (Option Property) :=
  r.property x.path name

/-- The text of the first value of a property. -/
def textProperty (r : Reader) (x : Resource) (name : String) : Except Error (Option String) := do
  pure (((← x.property r name).bind Property.value?).bind Value.text?)

/-! ### The other half, and what lies above -/

/-- The node that a snapshot was copied from; a resource that is no snapshot is its own. -/
def unfrozen (r : Reader) (x : Resource) : Except Error (Option Resource) := do
  if x.node.isFrozen then
    match ← x.textProperty r Vocab.Name.frozenUuid with
    | some identifier => byIdentifier? r identifier
    | none => pure none
  else pure (some x)

/-- The binary that a description describes; any other resource describes itself. -/
def described (r : Reader) (x : Resource) : Except Error Resource :=
  if x.kind = .description then require r (Path.child x.path Vocab.Name.content) else pure x

/-- The description of a binary; any other resource is its own description. -/
def description (r : Reader) (x : Resource) : Except Error Resource :=
  if x.kind = .binary then
    match Path.parent? x.path with
    | some parent => require r parent
    | none => throw (.repository (.noDescription x.path))
  else pure x

/-- The nodes of a resource: both halves of a binary, its content first, and the one node of any
other resource. -/
def halves (r : Reader) (x : Resource) : Except Error (List Resource) := do
  if x.kind = .binary ∨ x.kind = .description then
    let binary ← x.described r
    pure [binary, ← binary.description r]
  else pure [x]

/-- The resource directly above. -/
def parent (r : Reader) (x : Resource) : Except Error (Option Resource) :=
  match Path.parent? x.path with
  | some path => at? r path
  | none => pure none

/-- The resource at a path, if its node is addressable: stored, not one of the store's own, and no
pairtree node. -/
def addressable? (r : Reader) (path : String) : Except Error (Option Resource) := do
  match ← r.node path with
  | none => pure none
  | some n =>
      if n.isInternalChild then pure none
      else
        let candidate ← ofNode r n
        if ← candidate.declares r Vocab.Name.fedoraPairtree then pure none
        else pure (some candidate)

/-- The first addressable resource along a list of paths. -/
def firstAddressable (r : Reader) : List String → Except Error (Option Resource)
  | [] => pure none
  | path :: rest => do
      match ← addressable? r path with
      | some found => pure (some found)
      | none => firstAddressable r rest

/-- The nearest addressable resource above; for a binary, above its description. -/
def container (r : Reader) (x : Resource) : Except Error (Option Resource) := do
  let start ← x.description r
  firstAddressable r (Path.ancestors start.path)

/-! ### What lies below -/

/-- The nodes of a listing that satisfy a test, failing items kept. -/
def keepNodes (keep : Node → Bool) (items : List (Except Error Node)) :
    List (Except Error Node) :=
  items.filter fun
    | .ok n => keep n
    | .error _ => true

/-- The nodes of the children: what lies directly below, the store's own nodes left out.  A binary
has none. -/
def childNodes (r : Reader) (x : Resource) : Except Error (List (Except Error Node)) :=
  if x.kind = .binary then pure []
  else
    (r.children x.path).map <|
      keepNodes fun n => !n.isInternalChild && n.primaryType != Vocab.Name.modeSystem

/-- The nodes of the hash-fragment resources, which lie below a holder. -/
def hashNodes (r : Reader) (x : Resource) : Except Error (List (Except Error Node)) := do
  let holder := Path.child x.path Vocab.Name.hashHolder
  match ← r.node holder with
  | some _ => r.children holder
  | none => pure []

/-- The nodes of a listing in their roles. -/
def eachOfNode (r : Reader) (items : List (Except Error Node)) : List (Except Error Resource) :=
  items.map fun item => item >>= ofNode r

def children (r : Reader) (x : Resource) : Listing Resource :=
  (x.childNodes r).map (eachOfNode r)

def hashChildren (r : Reader) (x : Resource) : Listing Resource :=
  (x.hashNodes r).map (eachOfNode r)

/-! ### Versions and content -/

def history (r : Reader) (x : Resource) : Except Error (Option VersionHistory) :=
  r.history x.path

/-- The recorded digest of the content. -/
def contentDigest (r : Reader) (x : Resource) : Except Error (Option String) :=
  x.textProperty r Vocab.Name.contentDigest

/-- The recorded size of the content, if it is a size. -/
def contentSize (r : Reader) (x : Resource) : Except Error (Option Nat) := do
  let recorded := ((← x.property r Vocab.Name.contentSize).bind Property.value?).bind Value.long?
  pure (recorded.bind fun n => if 0 ≤ n then some n.toNat else none)

/-- The stored copies of a binary, each compared with the recorded digest and size.  The digest
is computed as the recorded one names it, and as asked if it names none. -/
def fixity (r : Reader) (x : Resource) (algorithm : DigestAlgorithm) :
    Except Error (List FixityResult) := do
  let binary ← x.described r
  if binary.kind ≠ .binary then throw (.repository (.notBinary x.path))
  let some digest ← binary.contentDigest r
    | throw (.notFound (.contentDigest binary.path))
  let some size ← binary.contentSize r
    | throw (.notFound (.contentSize binary.path))
  let results ← r.fixity binary.path ((DigestAlgorithm.ofDigestIri? digest).getD algorithm)
  pure (results.map fun result => result.verify digest size)

end Resource

end LinkedStore
