import LinkedStore.Json.Basic
import LinkedStore.Text.Hex

/-!
# Reading JSON

A text is read as one value with blanks around it.  Arrays and objects nest at most 127 deep.  A
whole number that a word of 64 bits cannot hold is read as a floating number, from as many of its
digits as such a word holds.

## Main definitions

* `Json.Reader.number` : a number at the start of a text.
* `Json.parse?` : the value of a text.
-/

namespace LinkedStore.Json

namespace Reader

def isBlank (c : Char) : Bool := c == ' ' || c == '\n' || c == '\t' || c == '\r'

def skipBlanks (text : List Char) : List Char := text.dropWhile isBlank

/-! ### Numbers -/

/-- The largest significand that is read exactly. -/
def significandLimit : Nat := Word.limit - 1

/-- The largest exponent that is read exactly. -/
def largestExponent : Nat := 0x7fffffff

/-- The power of ten with a given exponent. -/
def powerOfTen (e : Nat) : Float := Float.ofScientific 1 false e

/-- A significand scaled by a power of ten in steps that a double can hold; none if the result is
out of range. -/
def scaled : Nat → Float → Int → Option Float
  | 0, x, _ => some x
  | steps + 1, x, e =>
      if e.natAbs ≤ 308 then
        if 0 ≤ e then
          let y := x * powerOfTen e.toNat
          if y.isInf then none else some y
        else some (x / powerOfTen e.natAbs)
      else if x == 0.0 then some x
      else if 0 ≤ e then none
      else scaled steps (x / powerOfTen 308) (e + 308)

/-- The floating number of a significand and an exponent of ten. -/
def floating (negative : Bool) (significand : Nat) (e : Int) : Option JsonNumber :=
  (scaled (e.natAbs / 308 + 1) (UInt64.ofNat significand).toFloat e).map fun x =>
    .floating (.ofFloat (if negative then -x else x))

/-- Digits added to a significand as long as it stays within the limit, with the count of the
digits added and the digits left over. -/
def accumulate : Nat → List Char → Nat → Nat × Nat × List Char
  | n, [], added => (n, added, [])
  | n, c :: rest, added =>
      let next := 10 * n + (c.toNat - 48)
      if next ≤ significandLimit then accumulate next rest (added + 1)
      else (n, added, c :: rest)

/-- A number with an exponent mark at the start of `text`: the sign and the digits behind it. -/
def exponent (negative : Bool) (significand : Nat) (start : Int) (text : List Char) :
    Option (JsonNumber × List Char) :=
  let (below, text) :=
    match text with
    | '+' :: rest => (false, rest)
    | '-' :: rest => (true, rest)
    | _ => (false, text)
  let digits := text.takeWhile Char.isDigit
  let rest := text.drop digits.length
  if digits.isEmpty then none
  else
    let size : Nat := digits.foldl (fun n c => 10 * n + (c.toNat - 48)) 0
    if size ≤ largestExponent then
      let e := if below then start - size else start + size
      (floating negative significand e).map fun n => (n, rest)
    else if significand ≠ 0 ∧ !below then none
    else (floating negative 0 0).map fun n => (n, rest)

/-- A number without its sign at the start of a text. -/
def unsigned (negative : Bool) (text : List Char) : Option (JsonNumber × List Char) :=
  let whole := text.takeWhile Char.isDigit
  let rest := text.drop whole.length
  if whole.isEmpty || (whole.head? == some '0' && whole.length != 1) then none
  else
    let (significand, _, left) := accumulate 0 whole 0
    match rest with
    | '.' :: rest =>
        let places := rest.takeWhile Char.isDigit
        let rest := rest.drop places.length
        if places.isEmpty then none
        else
          let (significand, added, _) := accumulate significand places 0
          let start : Int := (left.length : Int) - added
          match rest with
          | 'e' :: rest | 'E' :: rest => exponent negative significand start rest
          | _ => (floating negative significand start).map fun n => (n, rest)
    | 'e' :: rest | 'E' :: rest => exponent negative significand left.length rest
    | _ =>
        if !left.isEmpty then (floating negative significand left.length).map fun n => (n, rest)
        else if !negative then some (.whole significand, rest)
        else if 0 < significand ∧ significand ≤ Word.signedLimit then
          some (.below significand, rest)
        else (floating true significand 0).map fun n => (n, rest)

/-- A number at the start of a text. -/
def number : List Char → Option (JsonNumber × List Char)
  | '-' :: rest => unsigned true rest
  | text => unsigned false text

/-! ### Strings -/

/-- Four hexadecimal digits as a number. -/
def hexUnit (a b c d : Char) : Option Nat := Text.hexNumber? [a, b, c, d]

/-- The character of an escape of one letter. -/
def shortEscape : Char → Option Char
  | '"' => some '"'
  | '\\' => some '\\'
  | '/' => some '/'
  | 'b' => some '\x08'
  | 'f' => some '\x0c'
  | 'n' => some '\n'
  | 'r' => some '\r'
  | 't' => some '\t'
  | _ => none

/-- The characters of a string up to its closing quote.  A code unit of the upper surrogates is
read only with one of the lower surrogates behind it. -/
def stringBody : List Char → Option (List Char × List Char)
  | [] => none
  | '"' :: rest => some ([], rest)
  | '\\' :: 'u' :: a :: b :: c :: d :: rest => do
      let unit ← hexUnit a b c d
      if unit < 0xD800 ∨ 0xDFFF < unit then
        let (chars, rest) ← stringBody rest
        return (Char.ofNat unit :: chars, rest)
      else if unit < 0xDC00 then
        match rest with
        | '\\' :: 'u' :: a :: b :: c :: d :: rest =>
            let low ← hexUnit a b c d
            if 0xDC00 ≤ low ∧ low ≤ 0xDFFF then
              let (chars, rest) ← stringBody rest
              return (Char.ofNat (0x10000 + (unit - 0xD800) * 0x400 + (low - 0xDC00)) :: chars,
                rest)
            else none
        | _ => none
      else none
  | '\\' :: c :: rest => do
      let char ← shortEscape c
      let (chars, rest) ← stringBody rest
      return (char :: chars, rest)
  | c :: rest => do
      if c.toNat < 0x20 then none
      else
        let (chars, rest) ← stringBody rest
        return (c :: chars, rest)

/-! ### Values -/

/-- What reads something at the start of a text. -/
abbrev ReaderOf (α : Type) := List Char → Option (α × List Char)

/-- The items of an array behind its opening bracket or a comma, read with `item`; `fuel` is the
length of the text. -/
def items (item : ReaderOf Json) : Nat → ReaderOf (List Json)
  | 0, _ => none
  | fuel + 1, text => do
      let (value, rest) ← item text
      match skipBlanks rest with
      | ']' :: rest => return ([value], rest)
      | ',' :: rest =>
          let (values, rest) ← items item fuel rest
          return (value :: values, rest)
      | _ => none

/-- The members of an object behind its opening brace or a comma, read with `item`; `fuel` is the
length of the text. -/
def members (item : ReaderOf Json) : Nat → ReaderOf (List (String × Json))
  | 0, _ => none
  | fuel + 1, text => do
      match skipBlanks text with
      | '"' :: rest =>
          let (name, rest) ← stringBody rest
          match skipBlanks rest with
          | ':' :: rest =>
              let (value, rest) ← item rest
              match skipBlanks rest with
              | '}' :: rest => return ([(String.ofList name, value)], rest)
              | ',' :: rest =>
                  let (more, rest) ← members item fuel rest
                  return ((String.ofList name, value) :: more, rest)
              | _ => none
          | _ => none
      | _ => none

/-- A value at the start of a text, with blanks before it; `depth` bounds the nesting. -/
def value : Nat → ReaderOf Json
  | 0, _ => none
  | depth + 1, text =>
      match skipBlanks text with
      | 'n' :: 'u' :: 'l' :: 'l' :: rest => some (.null, rest)
      | 't' :: 'r' :: 'u' :: 'e' :: rest => some (.bool true, rest)
      | 'f' :: 'a' :: 'l' :: 's' :: 'e' :: rest => some (.bool false, rest)
      | '"' :: rest => (stringBody rest).map fun read => (.string (String.ofList read.1), read.2)
      | '[' :: rest =>
          if depth = 0 then none
          else
            match skipBlanks rest with
            | ']' :: rest => some (.array [], rest)
            | _ => (items (value depth) rest.length rest).map fun read => (.array read.1, read.2)
      | '{' :: rest =>
          if depth = 0 then none
          else
            match skipBlanks rest with
            | '}' :: rest => some (.object [], rest)
            | _ =>
                (members (value depth) rest.length rest).map fun read =>
                  (ofMembers read.1, read.2)
      | text => (number text).map fun read => (.number read.1, read.2)

end Reader

/-- The value of a text, if it is one value with blanks around it. -/
def parse? (text : String) : Option Json := do
  let (value, rest) ← Reader.value 128 text.toList
  if (Reader.skipBlanks rest).isEmpty then some value else none

end LinkedStore.Json
