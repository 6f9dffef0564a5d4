import LinkedStore.Description.Values
import LinkedStore.Stream.Basic

/-!
# Membership

A container asserts membership on its membership resource: on itself, unless it names another one.
A basic container states its children with a fixed predicate.  A direct container states them with
a predicate of its own, and an indirect one states the values of a property of theirs.  A container
that lacks what its variant needs states nothing.

## Main definitions

* `Description.membership` : the members of a resource, from every container that names it.
* `Description.isMemberOf` : the resource that the container of a member asserts membership on.
-/

namespace LinkedStore.Description

open Vocab.Name

/-! ### Membership resources and the containers that name them -/

/-- The resource that a container asserts membership on: what it names, and itself if it names
none. -/
def membershipResource (v : View) (container : Resource) : Except Error (Option Term) := do
  match ← container.property v.reader ldpMembershipResource with
  | none => some <$> v.subject container
  | some p =>
      match p.value? with
      | none => pure none
      | some value =>
          if value.isNodePointer then v.termOf? value else pure (value.text?.map .iri)

/-- A resource with its variant, if it asserts membership at all. -/
def withVariant (v : View) (x : Resource) :
    Except Error (Option (Resource × ContainerVariant)) := do
  pure ((← x.variant v.reader).map fun variant => (x, variant))

/-- The resource itself, if it is a container that asserts membership on itself. -/
def ownContainer (v : View) (x : Resource) (topic : Term) :
    Except Error (Option (Resource × ContainerVariant)) := do
  match ← withVariant v x with
  | none => pure none
  | some found => pure (if (← membershipResource v x) = some topic then some found else none)

/-- The container at a path, if there is one. -/
def containerAt (v : View) (path : String) :
    Except Error (Option (Resource × ContainerVariant)) := do
  match ← Resource.at? v.reader path with
  | some x => withVariant v x
  | none => pure none

/-- The containers that name a resource, given the properties that refer to it and the paths that
have been looked at. -/
def namingContainers (v : View) : List String → List (Except Error Property) →
    Except Error (List (Resource × ContainerVariant))
  | _, [] => pure []
  | seen, item :: rest => do
      let p ← item
      if p.name ≠ ldpMembershipResource ∨ seen.contains p.owner then namingContainers v seen rest
      else
        let found ← containerAt v p.owner
        pure (found.toList ++ (← namingContainers v (p.owner :: seen) rest))

/-- The containers that assert membership on a resource: itself, and those that name it. -/
def membershipContainers (v : View) (x : Resource) (topic : Term) :
    Except Error (List (Resource × ContainerVariant)) := do
  let own ← ownContainer v x topic
  let seen := own.toList.map fun found => found.1.path
  let listing ← v.reader.references x.path .all
  pure (own.toList ++ (← namingContainers v seen listing))

/-! ### What a container states -/

/-- What a container states of its members. -/
inductive MemberPart where
  /-- The member itself. -/
  | subject
  /-- The values of a property of the member. -/
  | valuesOf (name : String)
  deriving DecidableEq, Repr

/-- The predicate that a container asserts membership with. -/
def memberRelation (v : View) (container : Resource) :
    ContainerVariant → Except Error (Option String)
  | .basic => pure (some Vocab.Ldp.member)
  | .direct | .indirect => container.textProperty v.reader ldpHasMemberRelation

/-- The part of a member that an IRI stands for. -/
def memberPartOf (v : View) (iri : String) : Except Error (Option MemberPart) := do
  if iri = Vocab.Ldp.memberSubject then pure (some .subject)
  else pure ((← Naming.name? v.reader iri).map .valuesOf)

/-- The part of its members that a container states. -/
def memberPart (v : View) (container : Resource) :
    ContainerVariant → Except Error (Option MemberPart)
  | .basic | .direct => pure (some .subject)
  | .indirect => do
      match ← container.textProperty v.reader ldpInsertedContentRelation with
      | some iri => memberPartOf v iri
      | none => pure none

/-- The terms that stand for a member. -/
def memberTerms (v : View) (member : Resource) : MemberPart → Except Error (List Term)
  | .subject => do pure [← v.subject member]
  | .valuesOf name => do
      match ← member.property v.reader name with
      | some p => v.termsOf p.values
      | none => pure []

/-- What a container states of one child. -/
def memberTriples (subject : Term) (relation : String) (part : MemberPart) (node : Node)
    (v : View) : Except Error (Stream View) := do
  let child ← Resource.ofNode v.reader node
  let terms ← memberTerms v child part
  pure (.ofTriples subject (terms.map fun term => ⟨subject, .iri relation, term⟩))

/-- What a container states on its membership resource. -/
def containerTriples (subject : Term) (found : Resource × ContainerVariant) (v : View) :
    Except Error (Stream View) := do
  match ← memberRelation v found.1 found.2 with
  | none => pure .empty
  | some relation =>
      match ← memberPart v found.1 found.2 with
      | none => pure .empty
      | some part =>
          let nodes ← found.1.childNodes v.reader
          pure (.flatMap subject nodes (memberTriples subject relation part))

/-- The members of a resource, as triples. -/
def membership (v : View) (x : Resource) : Except Error (Stream View) := do
  let topic ← v.subject x
  let containers ← membershipContainers v x topic
  pure (.flatMap topic (containers.map .ok) (containerTriples topic))

/-! ### The other direction -/

/-- What the container of a member says about the other direction. -/
structure InverseRelation where
  relation : String
  /-- The membership resource. -/
  target : Term
  /-- The IRI of the part of its members that the container states. -/
  inserted : String
  deriving DecidableEq, Repr

/-- The IRI of the part of its members that a container states. -/
def insertedRelation (v : View) (container : Resource) :
    ContainerVariant → Except Error (Option String)
  | .indirect => container.textProperty v.reader ldpInsertedContentRelation
  | .basic | .direct => pure (some Vocab.Ldp.memberSubject)

/-- What a container of a given variant says about the other direction. -/
def inverseOf (v : View) (container : Resource) (variant : ContainerVariant) :
    Except Error (Option InverseRelation) := do
  let some relation ← container.textProperty v.reader ldpIsMemberOfRelation | pure none
  let some target ← membershipResource v container | pure none
  let some inserted ← insertedRelation v container variant | pure none
  pure (some ⟨relation, target, inserted⟩)

/-- What the container of a resource says about the other direction.  A basic container says
nothing. -/
def inverseRelation (v : View) (x : Resource) : Except Error (Option InverseRelation) := do
  match ← x.container v.reader with
  | none => pure none
  | some container =>
      match ← container.variant v.reader with
      | some .direct => inverseOf v container .direct
      | some .indirect => inverseOf v container .indirect
      | _ => pure none

/-- Whether a term is the IRI of something in the repository. -/
def isOwnIri (v : View) (t : Term) : Bool := t.iri?.any v.inDomain

/-- The terms that stand for a member on its own side: of the values of a property, those that name
something in the repository. -/
def ownTerms (v : View) (x : Resource) (topic : Term) (inserted : String) :
    Except Error (List Term) := do
  match ← memberPartOf v inserted with
  | none => pure []
  | some .subject => pure [topic]
  | some (.valuesOf name) =>
      pure ((← memberTerms v x (.valuesOf name)).filter (isOwnIri v))

/-- The resource that a resource is a member of, as triples. -/
def isMemberOf (v : View) (x : Resource) : Except Error (Stream View) := do
  let topic ← v.subject x
  match ← inverseRelation v x with
  | none => pure (.ofTriples topic [])
  | some inverse =>
      let terms ← ownTerms v x topic inverse.inserted
      pure (.ofTriples topic (terms.map fun term => ⟨term, .iri inverse.relation, inverse.target⟩))

end LinkedStore.Description
