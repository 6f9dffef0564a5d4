import LinkedStore.Form.Basic
import LinkedStore.Rdf.Triple

/-!
# The JSON forms of terms and triples
-/

namespace LinkedStore

open Json

instance : JsonForm LiteralValue where
  toJson
    | .string s => ofVariant "String" (toJson s)
    | .boolean b => ofVariant "Boolean" (toJson b)
    | .integer n => ofVariant "Integer" (toJson n)
    | .double x => ofVariant "Double" (toJson x)
  ofJson? json := do
    let (name, content) ← json.variant?
    let content ← content
    match name with
    | "String" => LiteralValue.string <$> ofJson? content
    | "Boolean" => LiteralValue.boolean <$> ofJson? content
    | "Integer" => LiteralValue.integer <$> ofJson? content
    | "Double" => LiteralValue.double <$> ofJson? content
    | _ => none

/-- The literal of a record, which has to be an object. -/
def Term.ofRecord? (json : Json) : Option Term := do
  if json.array?.isSome then none
  let fields ← json.fields? ["datatype", "language", "value"] 0
  pure (.literal (← fields.get? "datatype") (← fields.getOr? "language" none)
    (← fields.get? "value"))

instance : JsonForm Term where
  toJson
    | .blank label => ofVariant "BlankNode" (toJson label)
    | .iri i => ofVariant "Iri" (toJson i)
    | .literal datatype language value =>
        ofVariant "Literal" (.ofMembers
          [("datatype", toJson datatype), ("language", toJson language), ("value", toJson value)])
  ofJson? json := do
    let (name, content) ← json.variant?
    let content ← content
    match name with
    | "BlankNode" => Term.blank <$> ofJson? content
    | "Iri" => Term.iri <$> ofJson? content
    | "Literal" => Term.ofRecord? content
    | _ => none

instance : JsonForm Triple where
  toJson t :=
    .ofMembers [("s", toJson t.subject), ("p", toJson t.predicate), ("o", toJson t.object)]
  ofJson? json := do
    let fields ← json.fields? ["s", "p", "o"] 0
    pure ⟨← fields.get? "s", ← fields.get? "p", ← fields.get? "o"⟩

end LinkedStore
