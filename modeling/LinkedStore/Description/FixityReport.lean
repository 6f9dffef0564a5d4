import LinkedStore.Address.IriMap
import LinkedStore.Stream.Basic

/-!
# Fixity reports

A fixity report describes, for each stored copy of a binary, the digest and the size that were
computed and the outcome of comparing them with what was recorded.  Its nodes are fragments of the
binary, named for the time of the report and the number of the copy.

## Main definitions

* `Description.fixityReport` : the report on given results.
* `Description.fixity` : the report on the stored copies of a binary.
-/

namespace LinkedStore.Description

open Vocab

/-- A size as a literal; beyond the range of a long it is an integer. -/
def sizeLiteral (size : Nat) : Term :=
  if size < Word.signedLimit then .long size else .typed (toString size) Xsd.integer

/-- The node of a report on one copy. -/
def fixityNode (topic : String) (now : Instant) (number : Nat) : Term :=
  .iri (topic ++ "#fixity/" ++ toString now.millis ++ "-" ++ toString number)

/-- What is reported on one copy. -/
def fixityTriples (topic node : Term) (result : FixityResult) : List Triple :=
  let location := Term.iri result.location
  [⟨topic, .iri Premis.hasFixity, node⟩, ⟨node, .iri Rdf.type, .iri Premis.fixity⟩] ++
    result.states.map (fun state => ⟨node, .iri Fedora.status, .string state.word⟩) ++
    [⟨node, .iri Premis.hasMessageDigest, .iri result.digest⟩,
      ⟨node, .iri Premis.hasSize, sizeLiteral result.size⟩,
      ⟨node, .iri Premis.hasContentLocation, location⟩,
      ⟨location, .iri Rdf.type, .iri Premis.contentLocation⟩,
      ⟨location, .iri Premis.hasContentLocationValue, .string result.location⟩]

/-- The report on results, each compared with a digest and a size.  A resource without an IRI has
no report. -/
def fixityReport (v : View) (now : Instant) (x : Resource) (results : List FixityResult)
    (digest : String) (size : Nat) : Except Error (Stream View) := do
  let topic ← v.subject x
  match topic.iri? with
  | none => pure (.ofTriples topic [])
  | some iri =>
      pure (.ofTriples topic (results.zipIdx.flatMap fun (result, number) =>
        fixityTriples topic (fixityNode iri now number) (result.verify digest size)))

/-- The report on the stored copies of a binary. -/
def fixity (v : View) (now : Instant) (x : Resource) (algorithm : DigestAlgorithm) :
    Except Error (Stream View) := do
  let binary ← x.described v.reader
  let results ← binary.fixity v.reader algorithm
  let digest ← binary.contentDigest v.reader
  let size ← binary.contentSize v.reader
  fixityReport v now binary results (digest.getD "") (size.getD 0)

end LinkedStore.Description
