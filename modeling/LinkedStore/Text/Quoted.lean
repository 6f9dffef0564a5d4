import LinkedStore.Text.Glyphless

/-!
# Quoted text

A lexical form is shown between double quotes.  Quotes and backslashes are escaped, line ends,
tabs and the null character have escapes of their own, and a character without a glyph is shown by
its code point.

## Main definitions

* `Text.quoted` : text between quotes.

## Main statements

* `Text.escaped_of_plain` : a character with a glyph and no escape stands for itself.
-/

namespace LinkedStore.Text

/-- The characters with an escape of their own. -/
def shortEscapes : List (Char × Char) :=
  [('\x00', '0'), ('\t', 't'), ('\r', 'r'), ('\n', 'n'), ('\\', '\\'), ('"', '"')]

/-- What stands for a character between quotes. -/
def escaped (c : Char) : List Char :=
  match shortEscapes.lookup c with
  | some mark => ['\\', mark]
  | none =>
      if isGlyphless c then ['\\', 'u', '\x7b'] ++ Nat.toDigits 16 c.toNat ++ ['\x7d'] else [c]

theorem escaped_of_plain {c : Char} (hshort : shortEscapes.lookup c = none)
    (hglyph : isGlyphless c = false) : escaped c = [c] := by
  simp [escaped, hshort, hglyph]

/-- Text between double quotes. -/
def quoted (text : String) : String :=
  String.ofList ('"' :: text.toList.flatMap escaped ++ ['"'])

end LinkedStore.Text
