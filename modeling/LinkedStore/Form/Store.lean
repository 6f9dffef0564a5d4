import LinkedStore.Fixity
import LinkedStore.Form.Basic
import LinkedStore.Store.Node
import LinkedStore.Store.Property

/-!
# The JSON forms of the records of the store

Nodes, node types, versions, properties and their values, and the results of fixity checks.
-/

namespace LinkedStore

open Json

/-! ### Values and properties -/

namespace ValueType

/-- The word for a type. -/
def word : ValueType → String
  | string => "String"
  | boolean => "Boolean"
  | long => "Long"
  | double => "Double"
  | decimal => "Decimal"
  | date => "Date"
  | uri => "Uri"
  | name => "Name"
  | path => "Path"
  | reference => "Reference"
  | weakReference => "WeakReference"
  | binary => "Binary"

def all : List ValueType :=
  [string, boolean, long, double, decimal, date, uri, name, path, reference, weakReference, binary]

end ValueType

instance : JsonForm ValueType where
  toJson t := .string t.word
  ofJson? json := json.word? >>= fun word => ValueType.all.find? fun t => t.word == word

/-- A value as the content of the variant that its type names. -/
def Value.content : Value → Json
  | .string s | .decimal s | .uri s | .name s | .path s | .reference s | .weakReference s =>
      toJson s
  | .boolean b => toJson b
  | .long n => toJson n
  | .double x => toJson x
  | .date t => toJson t
  | .binary bytes => toJson bytes

instance : JsonForm Value where
  toJson v := ofVariant v.type.word v.content
  ofJson? json := do
    let (word, content) ← json.variant?
    let content ← content
    match ← ValueType.all.find? fun t => t.word == word with
    | .string => Value.string <$> ofJson? content
    | .boolean => Value.boolean <$> ofJson? content
    | .long => Value.long <$> ofJson? content
    | .double => Value.double <$> ofJson? content
    | .decimal => Value.decimal <$> ofJson? content
    | .date => Value.date <$> ofJson? content
    | .uri => Value.uri <$> ofJson? content
    | .name => Value.name <$> ofJson? content
    | .path => Value.path <$> ofJson? content
    | .reference => Value.reference <$> ofJson? content
    | .weakReference => Value.weakReference <$> ofJson? content
    | .binary => Value.binary <$> ofJson? content

instance : JsonForm Property where
  toJson p :=
    .ofMembers
      [("owner", toJson p.owner), ("name", toJson p.name), ("property_type", toJson p.type),
        ("values", toJson p.values), ("multiple", toJson p.multiple),
        ("protected", toJson p.guarded)]
  ofJson? json := do
    let fields ←
      json.fields? ["owner", "name", "property_type", "values", "multiple", "protected"] 0
    pure ⟨← fields.get? "owner", ← fields.get? "name", ← fields.get? "property_type",
      ← fields.get? "values", ← fields.get? "multiple", ← fields.get? "protected"⟩

/-! ### Nodes and versions -/

instance : JsonForm Node where
  toJson n :=
    .ofMembers
      [("path", toJson n.path), ("identifier", toJson n.identifier),
        ("primary_type", toJson n.primaryType), ("mixin_types", toJson n.mixins)]
  ofJson? json := do
    let fields ← json.fields? ["path", "identifier", "primary_type", "mixin_types"] 0
    pure ⟨← fields.get? "path", ← fields.get? "identifier", ← fields.get? "primary_type",
      ← fields.get? "mixin_types"⟩

instance : JsonForm NodeType where
  toJson t :=
    .ofMembers
      [("name", toJson t.name), ("supertypes", toJson t.supertypes),
        ("is_mixin", toJson t.isMixin)]
  ofJson? json := do
    let fields ← json.fields? ["name", "supertypes", "is_mixin"] 0
    pure ⟨← fields.get? "name", ← fields.get? "supertypes", ← fields.get? "is_mixin"⟩

instance : JsonForm Version where
  toJson v :=
    .ofMembers
      [("name", toJson v.name), ("frozen_path", toJson v.frozenPath),
        ("created", toJson v.created), ("labels", toJson v.labels)]
  ofJson? json := do
    let fields ← json.fields? ["name", "frozen_path", "created", "labels"] 0
    pure ⟨← fields.get? "name", ← fields.get? "frozen_path", ← fields.get? "created",
      ← fields.get? "labels"⟩

instance : JsonForm VersionHistory where
  toJson h := .ofMembers [("root_version", toJson h.rootVersion), ("versions", toJson h.versions)]
  ofJson? json := do
    let fields ← json.fields? ["root_version", "versions"] 0
    pure ⟨← fields.get? "root_version", ← fields.get? "versions"⟩

/-! ### Fixity -/

instance : JsonForm DigestAlgorithm where
  toJson a := .string a.name
  ofJson? json := json.word? >>= fun word =>
    [DigestAlgorithm.sha1, .sha256].find? fun a => a.name == word

instance : JsonForm FixityState where
  toJson s := .string s.word
  ofJson? json := json.word? >>= fun word => FixityState.all.find? fun s => s.word == word

instance : JsonForm FixityResult where
  toJson r :=
    .ofMembers
      [("content_location", toJson r.location), ("computed_digest", toJson r.digest),
        ("computed_size", toJson r.size), ("states", toJson r.states)]
  ofJson? json := do
    let fields ←
      json.fields? ["content_location", "computed_digest", "computed_size", "states"] 0
    let states : List FixityState ← fields.get? "states"
    pure ⟨← fields.get? "content_location", ← fields.get? "computed_digest",
      ← fields.get? "computed_size", FixityState.all.filter states.contains⟩

end LinkedStore
