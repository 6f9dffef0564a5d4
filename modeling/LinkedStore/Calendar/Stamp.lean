import LinkedStore.Calendar.Instant

/-!
# Date-time stamps

An instant is written as a date, the letter `T`, a time of day and the letter `Z` for universal
time.  A stamp is read with some freedom: blanks between its parts, a blank for the letter `T`,
short fields, and any offset from universal time.

## Main definitions

* `Instant.millisStamp` : the stamp with three digits for the fraction.
* `Instant.stamp` : the stamp with as many digits, by threes, as the fraction needs.
* `Instant.ofStamp?` : the instant of a stamp.
-/

namespace LinkedStore

namespace Stamp

/-! ### Writing -/

/-- A number in at least `width` digits. -/
def padded (width n : Nat) : String :=
  let digits := Nat.toDigits 10 n
  String.ofList (List.replicate (width - digits.length) '0' ++ digits)

/-- A year in four digits; one that needs more, or lies before the year zero, has a sign. -/
def year (y : Int) : String :=
  if 0 ≤ y ∧ y ≤ 9999 then padded 4 y.toNat
  else (if y < 0 then "-" else "+") ++ padded 4 y.natAbs

/-- A date and a time of day up to the second, and the nanoseconds left.  The second of a leap
second is the sixtieth. -/
def body (t : Instant) : String × Nat :=
  let date := CivilDate.ofDays (t.seconds / 86400)
  let time := (t.seconds % 86400).toNat
  let leap := if 1000000000 ≤ t.nanos then 1 else 0
  (year date.year ++ "-" ++ padded 2 date.month ++ "-" ++ padded 2 date.day ++ "T" ++
    padded 2 (time / 3600) ++ ":" ++ padded 2 (time / 60 % 60) ++ ":" ++
    padded 2 (time % 60 + leap), t.nanos - leap * 1000000000)

/-! ### Reading -/

/-- The blanks that may stand between the parts of a stamp. -/
def isBlank (c : Char) : Bool :=
  let n := c.toNat
  (0x9 ≤ n && n ≤ 0xD) || n == 0x20 || n == 0x85 || n == 0xA0 || n == 0x1680 ||
    (0x2000 ≤ n && n ≤ 0x200A) || n == 0x2028 || n == 0x2029 || n == 0x202F || n == 0x205F ||
    n == 0x3000

def skipBlanks (text : List Char) : List Char := text.dropWhile isBlank

/-- The value of decimal digits. -/
def value (digits : List Char) : Nat := digits.foldl (fun n c => 10 * n + (c.toNat - 48)) 0

/-- A field of one digit at least and `most` digits at most, behind any blanks. -/
def field (most : Nat) (text : List Char) : Option (Nat × List Char) :=
  let text := skipBlanks text
  let digits := (text.takeWhile Char.isDigit).take most
  if digits.isEmpty then none else some (value digits, text.drop digits.length)

/-- A year: four digits at most, or a sign and any number of digits. -/
def yearField (text : List Char) : Option (Int × List Char) :=
  let signed (sign : Int) (rest : List Char) : Option (Int × List Char) :=
    let digits := rest.takeWhile Char.isDigit
    if digits.isEmpty then none else some (sign * value digits, rest.drop digits.length)
  match skipBlanks text with
  | '-' :: rest => signed (-1) rest
  | '+' :: rest => signed 1 rest
  | rest => (field 4 rest).map fun read => (read.1, read.2)

/-- A mark behind any blanks. -/
def mark (c : Char) (text : List Char) : Option (List Char) :=
  match skipBlanks text with
  | d :: rest => if d = c then some rest else none
  | [] => none

/-- A fraction of a second in nanoseconds; digits beyond the ninth are read and dropped. -/
def fraction (text : List Char) : Option (Nat × List Char) :=
  match text with
  | '.' :: rest =>
      let digits := rest.takeWhile Char.isDigit
      if digits.isEmpty then none
      else
        let kept := digits.take 9
        some (value kept * Nat.pow 10 (9 - kept.length), rest.drop digits.length)
  | _ => some (0, text)

/-- Two digits. -/
def twoDigits : List Char → Option (Nat × List Char)
  | a :: b :: rest => if a.isDigit && b.isDigit then some (value [a, b], rest) else none
  | _ => none

/-- An offset from universal time in seconds: a letter `Z`, the word `UTC`, or a sign, hours and
minutes with colons or blanks between them. -/
def offset (text : List Char) : Option (Int × List Char) := do
  let signed (sign : Int) (rest : List Char) : Option (Int × List Char) := do
    let (hours, rest) ← twoDigits rest
    let (minutes, rest) ← twoDigits (rest.dropWhile fun c => c == ':' || isBlank c)
    if hours ≤ 23 ∧ minutes ≤ 59 then
      some (sign * (3600 * (hours : Int) + 60 * (minutes : Int)), rest)
    else none
  match text with
  | 'Z' :: rest | 'z' :: rest => some (0, rest)
  | '+' :: rest => signed 1 rest
  | '-' :: rest | '−' :: rest => signed (-1) rest
  | u :: t :: c :: rest =>
      if [u, t, c].map Char.toUpper = ['U', 'T', 'C'] then some (0, rest) else none
  | _ => none

end Stamp

namespace Instant

/-- The stamp with the fraction in milliseconds. -/
def millisStamp (t : Instant) : String :=
  let (body, nanos) := Stamp.body t
  body ++ "." ++ Stamp.padded 3 (nanos / 1000000) ++ "Z"

/-- The stamp with as many digits, by threes, as the fraction needs. -/
def stamp (t : Instant) : String :=
  let (body, nanos) := Stamp.body t
  let fraction :=
    if nanos = 0 then ""
    else if nanos % 1000000 = 0 then "." ++ Stamp.padded 3 (nanos / 1000000)
    else if nanos % 1000 = 0 then "." ++ Stamp.padded 6 (nanos / 1000)
    else "." ++ Stamp.padded 9 nanos
  body ++ fraction ++ "Z"

/-- Whether a year is one that a stamp may name. -/
def isNameableYear (year : Int) : Bool := -262143 ≤ year && year ≤ 262142

/-- The instant of a stamp, if it is one.  The second 60 is a leap second. -/
def ofStamp? (text : String) : Option Instant := do
  let (year, rest) ← Stamp.yearField text.toList
  let (month, rest) ← Stamp.field 2 (← Stamp.mark '-' rest)
  let (day, rest) ← Stamp.field 2 (← Stamp.mark '-' rest)
  let rest ←
    match rest with
    | 'T' :: rest | 't' :: rest | ' ' :: rest => some rest
    | _ => none
  let (hour, rest) ← Stamp.field 2 rest
  let (minute, rest) ← Stamp.field 2 (← Stamp.mark ':' rest)
  let (second, rest) ← Stamp.field 2 (← Stamp.mark ':' rest)
  let (nanos, rest) ← Stamp.fraction rest
  let (offset, rest) ← Stamp.offset (Stamp.skipBlanks rest)
  if (Stamp.skipBlanks rest).isEmpty ∧ isNameableYear year ∧ 1 ≤ month ∧ month ≤ 12 ∧ 1 ≤ day ∧
      day ≤ CivilDate.daysIn year month ∧ hour ≤ 23 ∧ minute ≤ 59 ∧ second ≤ 60 then
    let leap := second / 60
    let days := CivilDate.toDays ⟨year, month, day⟩
    let seconds := 86400 * days + 3600 * hour + 60 * minute + (second - leap : Nat) - offset
    if isNameableYear (CivilDate.ofDays (seconds / 86400)).year then
      some ⟨seconds, nanos + leap * 1000000000⟩
    else none
  else none

end Instant

end LinkedStore
