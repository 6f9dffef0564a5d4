/-!
# Words of 64 bits

The bounds of the integers that a word of 64 bits holds, with and without a sign.

## Main definitions

* `Word.limit` : the bound of words without a sign.
* `Word.signedLimit` : the bound of words with a sign.
-/

namespace LinkedStore.Word

/-- Words without a sign hold the natural numbers below the limit. -/
def limit : Nat := 0x10000000000000000

/-- Words with a sign hold the integers below the limit that do not lie below its negative. -/
def signedLimit : Nat := 0x8000000000000000

end LinkedStore.Word
