/-!
# Bytes as text

Bytes are read as text one byte at a time.  A byte sequence that no character has is replaced,
each longest beginning of a character by one replacement mark, and reading goes on behind it.

## Main definitions

* `Text.Bytes` : a sequence of bytes.
* `Text.encode` : the bytes of a text.
* `Text.decodeLossy` : the text of a byte sequence, with replacement marks.
-/

namespace LinkedStore.Text

/-- A sequence of bytes. -/
abbrev Bytes := List UInt8

/-- The bytes of a text. -/
def encode (text : String) : Bytes := text.toUTF8.toList

/-- The mark that stands for bytes of no character. -/
def replacementMark : Char := '\uFFFD'

/-- A character of several bytes that has begun: how many bytes it still owes, the range of the
next one, and the bits read so far. -/
structure Partial where
  owed : Nat
  low : Nat
  high : Nat
  bits : Nat

/-- What a byte between characters begins: a whole character, a part of one, or nothing. -/
inductive Lead where
  | whole (c : Char)
  | begun (part : Partial)
  | stray

/-- What a byte between characters begins.  The bounds on the second byte leave out overlong
forms, surrogates and code points beyond the last. -/
def lead (b : Nat) : Lead :=
  if b < 0x80 then .whole (Char.ofNat b)
  else if b < 0xC2 then .stray
  else if b < 0xE0 then .begun ⟨1, 0x80, 0xBF, b % 0x20⟩
  else if b = 0xE0 then .begun ⟨2, 0xA0, 0xBF, b % 0x10⟩
  else if b = 0xED then .begun ⟨2, 0x80, 0x9F, b % 0x10⟩
  else if b < 0xF0 then .begun ⟨2, 0x80, 0xBF, b % 0x10⟩
  else if b = 0xF0 then .begun ⟨3, 0x90, 0xBF, b % 0x08⟩
  else if b < 0xF4 then .begun ⟨3, 0x80, 0xBF, b % 0x08⟩
  else if b = 0xF4 then .begun ⟨3, 0x80, 0x8F, b % 0x08⟩
  else .stray

/-- The characters that are read once a byte between characters is seen, and the part of a
character that it begins. -/
def restart (b : Nat) : List Char × Option Partial :=
  match lead b with
  | .whole c => ([c], none)
  | .begun part => ([], some part)
  | .stray => ([replacementMark], none)

/-- The characters that are read once a byte is seen, and the part of a character that has begun
behind it.  A byte that does not carry on the part before it replaces that part and starts anew. -/
def advance (state : Option Partial) (b : Nat) : List Char × Option Partial :=
  match state with
  | none => restart b
  | some part =>
      if part.low ≤ b ∧ b ≤ part.high then
        let bits := part.bits * 0x40 + b % 0x40
        if part.owed = 1 then ([Char.ofNat bits], none)
        else ([], some ⟨part.owed - 1, 0x80, 0xBF, bits⟩)
      else
        let (chars, next) := restart b
        (replacementMark :: chars, next)

/-- The characters of a byte sequence, after a part of a character if one has begun. -/
def decodeFrom : Option Partial → Bytes → List Char
  | none, [] => []
  | some _, [] => [replacementMark]
  | state, b :: rest =>
      let (chars, next) := advance state b.toNat
      chars ++ decodeFrom next rest

/-- The text of a byte sequence, with a replacement mark for bytes of no character. -/
def decodeLossy (bytes : Bytes) : String := String.ofList (decodeFrom none bytes)

end LinkedStore.Text
