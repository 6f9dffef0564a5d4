import LinkedStore.Calendar.Stamp
import LinkedStore.Error
import LinkedStore.Json.Basic
import LinkedStore.Number.Double

/-!
# JSON forms

A type with a JSON form can be written as a JSON value and read back.  A record is an object with
one member per field, and is also read from an array of its fields in order, unless it is the
content of a variant.  A value of a type with variants is an object with one member that names the
variant, or the name alone.

## Main definitions

* `JsonForm` : types with a JSON form.
* `Json.fields?`, `Json.Fields.get?` : the fields of a record.
* `Json.variant?` : the variant that a value is of.
* `Json.asForm` : a value read as one of a type, or the failure to do so.
-/

namespace LinkedStore

/-- Types whose values can be written as JSON and read back. -/
class JsonForm (α : Type) where
  toJson : α → Json
  ofJson? : Json → Option α

namespace Json

export JsonForm (toJson ofJson?)

/-- A value read as one of a type. -/
def asForm (α : Type) [JsonForm α] (json : Json) : Except Error α :=
  match ofJson? json with
  | some value => .ok value
  | none => .error .json

/-! ### Plain values -/

instance : JsonForm Json := ⟨id, some⟩

instance : JsonForm String := ⟨.string, Json.string?⟩

instance : JsonForm Bool := ⟨.bool, Json.bool?⟩

/-- The whole number of a value, if it is one from `least` to `most`. -/
def intBetween? (least most : Int) (json : Json) : Option Int := do
  let n ← json.int?
  if least ≤ n ∧ n ≤ most then some n else none

/-- Integers of 64 bits. -/
instance : JsonForm Int where
  toJson n := .number (.ofInt n)
  ofJson? := intBetween? (-(Word.signedLimit : Int)) ((Word.signedLimit : Int) - 1)

/-- Natural numbers of 64 bits. -/
instance : JsonForm Nat where
  toJson n := .number (.whole n)
  ofJson? json := (intBetween? 0 ((Word.limit : Int) - 1) json).map Int.toNat

instance : JsonForm UInt8 where
  toJson n := .number (.whole n.toNat)
  ofJson? json := (intBetween? 0 255 json).map fun n => n.toNat.toUInt8

/-- A double is written as a number, and as nothing if it is none. -/
instance : JsonForm Double where
  toJson x := if x.isNaN || x.isInfinite then .null else .number (.floating x)
  ofJson?
    | .number (.whole n) => some (.ofFloat (UInt64.ofNat n).toFloat)
    | .number (.below n) => some (.ofFloat (.neg (UInt64.ofNat n).toFloat))
    | .number (.floating x) => some x
    | _ => none

instance : JsonForm Instant where
  toJson t := .string t.stamp
  ofJson? json := json.string? >>= Instant.ofStamp?

instance {α : Type} [JsonForm α] : JsonForm (Option α) where
  toJson
    | some value => toJson value
    | none => .null
  ofJson?
    | .null => some none
    | json => (ofJson? json).map some

instance {α : Type} [JsonForm α] : JsonForm (List α) where
  toJson values := .array (values.map toJson)
  ofJson? json := json.array? >>= fun items => items.mapM ofJson?

/-! ### Records -/

/-- The fields of a record by name. -/
abbrev Fields := String → Option Json

/-- The fields of a record with the given field names.  An array gives them in order; `spare` of
them may be missing at its end. -/
def fields? (names : List String) (spare : Nat) : Json → Option Fields
  | .object members => some fun name => members.lookup name
  | .array items =>
      if items.length ≤ names.length ∧ names.length ≤ items.length + spare then
        some fun name => (names.zip items).lookup name
      else none
  | _ => none

/-- A field that has to be there. -/
def Fields.get? {α : Type} [JsonForm α] (fields : Fields) (name : String) : Option α :=
  fields name >>= ofJson?

/-- A field with a value for when it is missing. -/
def Fields.getOr? {α : Type} [JsonForm α] (fields : Fields) (name : String) (absent : α) :
    Option α :=
  match fields name with
  | some json => ofJson? json
  | none => some absent

/-! ### Variants -/

/-- The variant that a value is of, with its content if there is one. -/
def variant? : Json → Option (String × Option Json)
  | .string name => some (name, none)
  | .object [(name, content)] => some (name, some content)
  | _ => none

/-- A variant with content. -/
def ofVariant (name : String) (content : Json) : Json := .object [(name, content)]

/-- The name of a variant without content. -/
def word? (json : Json) : Option String :=
  match json.variant? with
  | some (name, none) | some (name, some .null) => some name
  | _ => none

end Json

end LinkedStore
