import LinkedStore.Number.Layout

/-!
# JSON values

Values of the JSON data format.  Whole numbers are kept apart from numbers with a fraction or an
exponent, and the members of an object are kept in ascending order of their names, each name once.

## Main definitions

* `JsonNumber` : a number, whole or floating.
* `Json` : a value.
* `Json.member?` : the member of an object with a given name.
* `Json.put` : the members of an object with one of them set.
-/

namespace LinkedStore

/-- A number of a JSON text: whole and not negative, whole and negative, or floating. -/
inductive JsonNumber where
  | whole (n : Nat)
  | below (n : Nat)
  | floating (x : Double)
  deriving DecidableEq, Repr

namespace JsonNumber

/-- A whole number. -/
def ofInt (n : Int) : JsonNumber := if 0 ≤ n then .whole n.toNat else .below n.natAbs

/-- The text of a number. -/
def text : JsonNumber → String
  | .whole n => toString n
  | .below n => "-" ++ toString n
  | .floating x => x.jsonText

/-- The whole number, if it is one. -/
def toInt? : JsonNumber → Option Int
  | .whole n => some n
  | .below n => some (-(n : Int))
  | .floating _ => none

end JsonNumber

/-- A value of the JSON data format. -/
inductive Json where
  | null
  | bool (b : Bool)
  | number (n : JsonNumber)
  | string (s : String)
  | array (items : List Json)
  | object (members : List (String × Json))
  deriving Repr, Inhabited

namespace Json

/-- The members of an object with one of them set: names ascend, and the last value given to a
name is the one kept. -/
def put (name : String) (value : Json) : List (String × Json) → List (String × Json)
  | [] => [(name, value)]
  | (other, held) :: rest =>
      if name < other then (name, value) :: (other, held) :: rest
      else if name = other then (name, value) :: rest
      else (other, held) :: put name value rest

/-- The object with the given members. -/
def ofMembers (members : List (String × Json)) : Json :=
  .object (members.foldl (fun held m => put m.1 m.2 held) [])

/-- The member of an object with a given name. -/
def member? (name : String) : Json → Option Json
  | .object members => members.lookup name
  | _ => none

/-- The text of a value as a string, if it is one. -/
def string? : Json → Option String
  | .string s => some s
  | _ => none

def bool? : Json → Option Bool
  | .bool b => some b
  | _ => none

def array? : Json → Option (List Json)
  | .array items => some items
  | _ => none

def int? : Json → Option Int
  | .number n => n.toInt?
  | _ => none

end Json

end LinkedStore
