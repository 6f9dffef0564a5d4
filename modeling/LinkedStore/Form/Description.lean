import LinkedStore.Description.Aspect
import LinkedStore.Form.Basic

/-!
# The JSON forms of aspects and selections
-/

namespace LinkedStore

open Json

instance : JsonForm Aspect where
  toJson a := .string a.word
  ofJson? json := json.word? >>= Aspect.ofWord?

instance : JsonForm Selection where
  toJson s :=
    .ofMembers [("contexts", toJson s.aspects), ("server_managed", toJson s.managed)]
  ofJson? json := do
    let fields ← json.fields? ["contexts", "server_managed"] 1
    let aspects : List Aspect ← fields.get? "contexts"
    pure (.ofAspects aspects (← fields.getOr? "server_managed" true))

end LinkedStore
