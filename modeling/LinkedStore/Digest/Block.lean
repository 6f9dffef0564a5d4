import LinkedStore.Text.Hex
import LinkedStore.Text.Utf8

/-!
# Message blocks

The digests of this library read a message in blocks of sixteen words of 32 bits.  The message is
followed by a set bit, by as many clear bits as fill the last block, and by its length in bits.

## Main definitions

* `Digest.blocks` : the blocks of a message.
* `Digest.hex` : words in hexadecimal digits, eight digits each.
-/

namespace LinkedStore.Digest

open LinkedStore.Text (Bytes)

/-- The `count` low bytes of a number, the highest first. -/
def bigEndian : Nat → Nat → Bytes
  | 0, _ => []
  | count + 1, n => bigEndian count (n / 256) ++ [UInt8.ofNat (n % 256)]

/-- A message with its padding: a multiple of 64 bytes. -/
def padded (message : Bytes) : Bytes :=
  message ++ 0x80 :: List.replicate ((119 - message.length % 64) % 64) 0 ++
    bigEndian 8 (8 * message.length)

/-- Four bytes each as a word, the highest byte first. -/
def words : Bytes → List UInt32
  | a :: b :: c :: d :: rest =>
      ((a.toUInt32 <<< 24) ||| (b.toUInt32 <<< 16) ||| (c.toUInt32 <<< 8) ||| d.toUInt32) ::
        words rest
  | _ => []

/-- A list in parts of `size`, at most `count` of them. -/
def parts {α : Type} (size : Nat) : Nat → List α → List (List α)
  | 0, _ => []
  | count + 1, items => items.take size :: parts size count (items.drop size)

/-- The blocks of a message. -/
def blocks (message : Bytes) : List (List UInt32) :=
  let all := words (padded message)
  parts 16 (all.length / 16) all

/-- A word turned to the left. -/
def rotateLeft (x : UInt32) (n : UInt32) : UInt32 := (x <<< n) ||| (x >>> (32 - n))

/-- A word turned to the right. -/
def rotateRight (x : UInt32) (n : UInt32) : UInt32 := (x >>> n) ||| (x <<< (32 - n))

/-- Words in hexadecimal digits, eight digits each. -/
def hex (state : List UInt32) : String :=
  String.ofList (state.flatMap fun word => Text.hexDigits 8 word.toNat)

end LinkedStore.Digest
