import LinkedStore.Description.Values
import LinkedStore.Stream.Basic

/-!
# Versions

A resource is described by its visible versions, oldest first.  The history is that of the
description for a binary.

## Main definitions

* `Description.versions` : the versions of a resource, with their time and their labels.
-/

namespace LinkedStore.Description

open Vocab

/-- What is stated about one version. -/
def versionTriples (v : View) (topic : Term) (version : Version) : Except Error (List Triple) := do
  let frozen ← v.termForPath version.frozenPath
  pure
    (⟨topic, .iri Fedora.hasVersion, frozen⟩ ::
      ⟨frozen, .iri Fedora.created, version.created.literal⟩ ::
      version.labels.map fun label => ⟨frozen, .iri Fedora.hasVersionLabel, .string label⟩)

/-- The history of a resource; that of the description for a binary. -/
def historyOf (v : View) (x : Resource) : Except Error (Option VersionHistory) := do
  let binary ← x.described v.reader
  let versioned ← binary.description v.reader
  versioned.history v.reader

/-- The visible versions of a resource, as triples. -/
def versions (v : View) (x : Resource) : Except Error (Stream View) := do
  let topic ← v.subject x
  match ← historyOf v x with
  | none => pure (.ofTriples topic [])
  | some history =>
      pure (.ofTriples topic (← history.visible.mapM (versionTriples v topic)).flatten)

end LinkedStore.Description
