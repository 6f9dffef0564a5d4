import LinkedStore.Calendar.Instant
import LinkedStore.Number.Double
import LinkedStore.Text.Utf8

/-!
# Property values

The store holds typed values.  References name the identifier of a node and paths its place; both
point at a node, and the two kinds of references are what is looked up backwards.

## Main definitions

* `Value`, `ValueType` : a value and its declared type.
* `Value.text?` : the text of a value that has one.
* `ReferenceKind.includes` : which values a search for references takes into account.
-/

namespace LinkedStore

/-- The declared type of a property. -/
inductive ValueType where
  | string
  | boolean
  | long
  | double
  | decimal
  | date
  | uri
  | name
  | path
  | reference
  | weakReference
  | binary
  deriving DecidableEq, Repr

/-- A single value.  A decimal is kept in its lexical form. -/
inductive Value where
  | string (text : String)
  | boolean (b : Bool)
  | long (n : Int)
  | double (x : Double)
  | decimal (lexical : String)
  | date (t : Instant)
  | uri (iri : String)
  | name (name : String)
  | path (path : String)
  | reference (identifier : String)
  | weakReference (identifier : String)
  | binary (bytes : Text.Bytes)
  deriving DecidableEq, Repr

namespace Value

def type : Value → ValueType
  | string _ => .string
  | boolean _ => .boolean
  | long _ => .long
  | double _ => .double
  | decimal _ => .decimal
  | date _ => .date
  | uri _ => .uri
  | name _ => .name
  | path _ => .path
  | reference _ => .reference
  | weakReference _ => .weakReference
  | binary _ => .binary

/-- Whether a value points at a node. -/
def isNodePointer : Value → Bool
  | path _ | reference _ | weakReference _ => true
  | _ => false

/-- The text of a value, for the types that have one. -/
def text? : Value → Option String
  | string s | decimal s | uri s | name s | path s | reference s | weakReference s => some s
  | _ => none

/-- The integer of a value, if it is one. -/
def long? : Value → Option Int
  | long n => some n
  | _ => none

end Value

/-- Which references a search takes into account. -/
inductive ReferenceKind where
  | strong
  | weak
  | all
  deriving DecidableEq, Repr

/-- Whether a search for references takes a value into account. -/
def ReferenceKind.includes : ReferenceKind → Value → Bool
  | strong, .reference _ | all, .reference _ => true
  | weak, .weakReference _ | all, .weakReference _ => true
  | _, _ => false

end LinkedStore
