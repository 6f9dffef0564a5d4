import LinkedStore.Digest.Sha1
import LinkedStore.Digest.Sha256
import LinkedStore.Error
import LinkedStore.Text.Cut

/-!
# Fixity

A stored copy of a binary is checked by computing its digest and its size and comparing both with
what was recorded.  The outcome is a set of states: success alone, or one state per mismatch.

## Main definitions

* `DigestAlgorithm` : the digests that can be computed.
* `FixityResult` : a digest and a size computed over one copy.
* `FixityResult.verify` : the result with the states of a comparison.

## Main statements

* `FixityResult.isMatch_verify` : a copy matches exactly when digest and size both agree.
-/

namespace LinkedStore

/-- A digest that can be computed. -/
inductive DigestAlgorithm where
  | sha1
  | sha256
  deriving DecidableEq, Repr

namespace DigestAlgorithm

/-- The name of the digest. -/
def name : DigestAlgorithm → String
  | sha1 => "SHA-1"
  | sha256 => "SHA-256"

/-- The name of the digest within a digest IRI. -/
def scheme : DigestAlgorithm → String
  | sha1 => "sha1"
  | sha256 => "sha256"

/-- The digest of bytes in hexadecimal digits. -/
def hex : DigestAlgorithm → Text.Bytes → String
  | sha1 => Digest.sha1
  | sha256 => Digest.sha256

/-- The digest of bytes as an IRI. -/
def digestIri (a : DigestAlgorithm) (bytes : Text.Bytes) : String :=
  "urn:" ++ a.scheme ++ ":" ++ a.hex bytes

/-- The digest that an IRI names in its second part. -/
def ofDigestIri? (iri : String) : Option DigestAlgorithm :=
  match (Text.pieces ':' iri.toList).map String.ofList with
  | "urn" :: "sha1" :: _ => some sha1
  | "urn" :: "sha256" :: _ => some sha256
  | _ => none

/-- A letter of the basic alphabet in upper case, and any other character as it is. -/
def upper (c : Char) : Char := if 'a' ≤ c ∧ c ≤ 'z' then Char.ofNat (c.toNat - 32) else c

/-- The digest of a name in either spelling and any case. -/
def ofName (name : String) : Except Error DigestAlgorithm :=
  match String.ofList (name.toList.map upper) with
  | "SHA-1" | "SHA1" => .ok sha1
  | "SHA-256" | "SHA256" => .ok sha256
  | other => .error (.config (.unknownAlgorithm other))

end DigestAlgorithm

/-- An outcome of one comparison. -/
inductive FixityState where
  | success
  | badChecksum
  | badSize
  deriving DecidableEq, Repr

namespace FixityState

/-- The word for an outcome. -/
def word : FixityState → String
  | success => "SUCCESS"
  | badChecksum => "BAD_CHECKSUM"
  | badSize => "BAD_SIZE"

/-- All outcomes, in the order in which they are listed. -/
def all : List FixityState := [success, badChecksum, badSize]

end FixityState

/-- A digest and a size computed over one stored copy of a binary. -/
structure FixityResult where
  /-- Where the copy is stored. -/
  location : String
  /-- The digest, as an IRI. -/
  digest : String
  size : Nat
  /-- The outcomes of the last comparison, listed in order; none before the first. -/
  states : List FixityState
  deriving DecidableEq, Repr

namespace FixityResult

/-- A result that has not been compared. -/
def computed (location digest : String) (size : Nat) : FixityResult := ⟨location, digest, size, []⟩

/-- The result compared with a digest and a size: success, or a state for each mismatch. -/
def verify (r : FixityResult) (digest : String) (size : Nat) : FixityResult :=
  let mismatches :=
    (if r.digest = digest then [] else [FixityState.badChecksum]) ++
      (if r.size = size then [] else [FixityState.badSize])
  { r with states := if mismatches = [] then [.success] else mismatches }

/-- Whether the last comparison found no mismatch. -/
def isMatch (r : FixityResult) : Bool := r.states == [.success]

/-- A copy matches exactly when its digest and its size both agree. -/
theorem isMatch_verify {r : FixityResult} {digest : String} {size : Nat} :
    (r.verify digest size).isMatch = true ↔ r.digest = digest ∧ r.size = size := by
  by_cases hdigest : r.digest = digest <;> by_cases hsize : r.size = size <;>
    simp [verify, isMatch, hdigest, hsize]

end FixityResult

end LinkedStore
