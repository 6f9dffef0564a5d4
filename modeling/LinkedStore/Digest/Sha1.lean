import LinkedStore.Digest.Block

/-!
# The digest of 160 bits

## Main definitions

* `Digest.sha1` : the digest of a message in hexadecimal digits.
-/

namespace LinkedStore.Digest

namespace Sha1

/-- The five words of the digest under way. -/
structure State where
  a : UInt32
  b : UInt32
  c : UInt32
  d : UInt32
  e : UInt32

def State.start : State := ⟨0x67452301, 0xEFCDAB89, 0x98BADCFE, 0x10325476, 0xC3D2E1F0⟩

/-- The schedule grown by `count` words, the newest first. -/
def grow : Nat → List UInt32 → List UInt32
  | 0, newest => newest
  | count + 1, newest =>
      let next := newest.getD 2 0 ^^^ newest.getD 7 0 ^^^ newest.getD 13 0 ^^^ newest.getD 15 0
      grow count (rotateLeft next 1 :: newest)

/-- The eighty words of a block, in order. -/
def schedule (block : List UInt32) : List UInt32 := (grow 64 block.reverse).reverse

/-- The mixing function and the constant of a round. -/
def mix (round : Nat) (b c d : UInt32) : UInt32 × UInt32 :=
  if round < 20 then ((b &&& c) ||| ((~~~b) &&& d), 0x5A827999)
  else if round < 40 then (b ^^^ c ^^^ d, 0x6ED9EBA1)
  else if round < 60 then ((b &&& c) ||| (b &&& d) ||| (c &&& d), 0x8F1BBCDC)
  else (b ^^^ c ^^^ d, 0xCA62C1D6)

def round (s : State) (word : UInt32 × Nat) : State :=
  let (f, k) := mix word.2 s.b s.c s.d
  ⟨rotateLeft s.a 5 + f + s.e + k + word.1, s.a, rotateLeft s.b 30, s.c, s.d⟩

/-- One block added to the digest under way. -/
def absorb (s : State) (block : List UInt32) : State :=
  let t := (schedule block).zipIdx.foldl round s
  ⟨s.a + t.a, s.b + t.b, s.c + t.c, s.d + t.d, s.e + t.e⟩

end Sha1

/-- The digest of 160 bits of a message, in hexadecimal digits. -/
def sha1 (message : Text.Bytes) : String :=
  let s := (blocks message).foldl Sha1.absorb .start
  hex [s.a, s.b, s.c, s.d, s.e]

end LinkedStore.Digest
