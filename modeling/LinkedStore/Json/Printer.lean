import LinkedStore.Json.Basic
import LinkedStore.Text.Hex

/-!
# Writing JSON

A value is written without blanks.  Strings escape quotes, backslashes and control characters, and
nothing else.

## Main definitions

* `Json.render` : the text of a value.
-/

namespace LinkedStore.Json

/-- The control characters with an escape of their own, with the quote and the backslash. -/
def shortEscapes : List (Char × Char) :=
  [('"', '"'), ('\\', '\\'), ('\x08', 'b'), ('\t', 't'), ('\n', 'n'), ('\x0c', 'f'), ('\r', 'r')]

/-- What stands for a character in a string. -/
def escaped (c : Char) : List Char :=
  match shortEscapes.lookup c with
  | some mark => ['\\', mark]
  | none =>
      if c.toNat < 0x20 then ['\\', 'u'] ++ Text.hexDigits 4 c.toNat else [c]

/-- A string with its quotes. -/
def renderString (s : String) : String :=
  String.ofList ('"' :: s.toList.flatMap escaped ++ ['"'])

mutual

/-- The text of a value. -/
def render : Json → String
  | .null => "null"
  | .bool b => if b then "true" else "false"
  | .number n => n.text
  | .string s => renderString s
  | .array items => "[" ++ renderItems items ++ "]"
  | .object members => "\x7b" ++ renderMembers members ++ "\x7d"

/-- The texts of the items of an array, with commas between them. -/
def renderItems : List Json → String
  | [] => ""
  | [item] => render item
  | item :: rest => render item ++ "," ++ renderItems rest

/-- The texts of the members of an object, with commas between them. -/
def renderMembers : List (String × Json) → String
  | [] => ""
  | [(name, value)] => renderString name ++ ":" ++ render value
  | (name, value) :: rest =>
      renderString name ++ ":" ++ render value ++ "," ++ renderMembers rest

end

end LinkedStore.Json
