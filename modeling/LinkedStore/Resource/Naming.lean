import LinkedStore.Session.Reader

/-!
# Names and IRIs

The store names types and properties with a prefix and a local name.  Such a name is published as
the namespace of its prefix followed by the local name, and an IRI is led back to a name through
the longest registered namespace that it begins with.

## Main definitions

* `Naming.split` : a name as prefix and local name.
* `Naming.iri` : the IRI of a name.
* `Naming.name?` : a name of an IRI.
-/

namespace LinkedStore.Naming

/-- A name as prefix and local name, cut at the first mark. -/
def split (name : String) : Except Error (String × String) :=
  match Text.cutFirst Vocab.Name.separator name.toList with
  | some (lead, rest) => .ok (String.ofList lead, String.ofList rest)
  | none => .error (.malformedName name)

/-- The IRI of a name.  A language at the end of the local name is no part of the IRI. -/
def iri (r : Reader) (name : String) : Except Error String := do
  let (lead, rest) ← split name
  match ← r.namespaceOf lead with
  | some ns =>
      pure (Vocab.publishedNamespace ns ++ String.ofList (Text.firstPiece '@' rest.toList))
  | none => throw (.unregisteredPrefix lead name)

/-- What is left of an IRI behind a namespace, if something is. -/
def localName? (ns iri : String) : Option (List Char) :=
  if ns = "" then none
  else
    match Text.after? ns.toList iri.toList with
    | some (c :: rest) => some (c :: rest)
    | _ => none

/-- The closest of the candidates: the first one that leaves the shortest local name. -/
def closest : List (String × List Char) → Option (String × List Char)
  | [] => none
  | (lead, rest) :: more =>
      match closest more with
      | some (lead', rest') =>
          if rest'.length < rest.length then some (lead', rest') else some (lead, rest)
      | none => some (lead, rest)

/-- The name of an IRI under the longest registered namespace that it begins with. -/
def name? (r : Reader) (iri : String) : Except Error (Option String) := do
  let candidates := (← r.namespaces).filterMap fun (lead, ns) =>
    (localName? (Vocab.publishedNamespace ns) iri).map fun rest => (lead, rest)
  pure ((closest candidates).map fun (lead, rest) =>
    lead ++ String.ofList (Vocab.Name.separator :: rest))

end LinkedStore.Naming
