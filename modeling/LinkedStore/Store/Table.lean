import Std.Data.ExtTreeMap

/-!
# Tables

A table maps text keys to values and lists them in ascending order of their keys, characters being
compared by code point.  Two tables with the same entries are equal.

## Main definitions

* `Table` : a table with text keys.
-/

namespace LinkedStore

/-- A table with text keys, listed in their order. -/
abbrev Table (α : Type) := Std.ExtTreeMap String α

end LinkedStore
