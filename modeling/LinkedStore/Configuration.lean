import LinkedStore.Fixity
import LinkedStore.Form.Basic
import LinkedStore.Json.Printer
import LinkedStore.Json.Reader
import LinkedStore.Store.Repository

/-!
# Configuration

A configuration is read from a JSON object.  Each entry is a plain value, or names an environment
variable and a value for when that is not set.  What is missing keeps its default.

## Main definitions

* `Environment` : the values of environment variables.
* `Setting` : a value that may be taken from the environment.
* `Configuration` : the configuration.
* `Configuration.ofJson`, `Configuration.ofText`, `Configuration.ofEnvironment` : reading one.
-/

namespace LinkedStore

/-- The values of environment variables. -/
abbrev Environment := String → Option String

/-- A value that may be taken from the environment. -/
structure Setting where
  /-- The name of an environment variable. -/
  variableName : Option String
  default : Option String
  deriving DecidableEq, Repr

namespace Setting

open Json

/-- The value of a setting: that of its variable, unless it is empty or not set. -/
def resolve (env : Environment) (s : Setting) : Option String :=
  match s.variableName.bind env with
  | none | some "" => s.default
  | some value => some value

instance : JsonForm Setting where
  toJson s := .ofMembers [("envVar", toJson s.variableName), ("defaultVal", toJson s.default)]
  ofJson? json := do
    let fields ← json.fields? ["envVar", "defaultVal"] 0
    pure ⟨← fields.getOr? "envVar" none, ← fields.getOr? "defaultVal" none⟩

end Setting

/-- What is configured. -/
structure Configuration where
  /-- The base of all IRIs, without a slash at its end. -/
  base : String
  /-- The workspace of requests that name none. -/
  workspace : String
  algorithm : DigestAlgorithm
  /-- The time in seconds after which an idle transaction expires. -/
  timeout : Nat
  deriving DecidableEq, Repr

namespace Configuration

open Json

/-- The base of all IRIs if none is configured. -/
def defaultBase : String := "http://localhost:8080/rest"

/-- The configuration without any entry. -/
def standard : Configuration := ⟨defaultBase, Repository.defaultWorkspace, .sha1, 180⟩

/-- A base without the slashes at its end. -/
def trimmedBase (base : String) : String := String.ofList (Text.trimEnd '/' base.toList)

/-! ### Entries -/

/-- The text of an entry: nothing if it is missing, the text of a string or a number, and the value
of a setting. -/
def entry (env : Environment) (json : Json) (field : String) : Except Error (Option String) :=
  match json.member? field with
  | none | some .null => .ok none
  | some (.string s) => .ok (some s)
  | some (.number n) => .ok (some n.text)
  | some other =>
      if (other.member? "envVar").isSome || (other.member? "defaultVal").isSome then
        (other.asForm Setting).map (Setting.resolve env)
      else .error (.config (.unsupportedValue field other.render))

/-- The number of a decimal text of at most 64 bits; a plus may lead it. -/
def number? (text : String) : Option Nat :=
  let digits := (Text.after? ['+'] text.toList).getD text.toList
  if digits ≠ [] ∧ digits.all (fun c => '0' ≤ c && c ≤ '9') then
    let n := digits.foldl (fun n c => 10 * n + (c.toNat - '0'.toNat)) 0
    if n < Word.limit then some n else none
  else none

/-- The base of an entry. -/
def baseOf (text : String) : Except Error String :=
  if text = "" then .error (.config .emptyBase) else .ok (trimmedBase text)

/-- The timeout of an entry. -/
def timeoutOf (text : String) : Except Error Nat :=
  match number? text with
  | some n => .ok n
  | none => .error (.config (.timeoutNotANumber text))

/-- An entry read as a value of its own; the value at hand, if the entry is missing. -/
def entryOr {α : Type} (env : Environment) (json : Json) (field : String)
    (read : String → Except Error α) (absent : α) : Except Error α := do
  match ← entry env json field with
  | some text => read text
  | none => pure absent

/-! ### Reading and writing -/

/-- The configuration of a JSON value. -/
def ofJson (env : Environment) (json : Json) : Except Error Configuration := do
  match json with
  | .object _ =>
      let base ← entryOr env json "baseUrl" baseOf standard.base
      let workspace ← entryOr env json "defaultWorkspace" pure standard.workspace
      let algorithm ← entryOr env json "digestAlgorithm" DigestAlgorithm.ofName standard.algorithm
      let timeout ← entryOr env json "transactionTimeoutSecs" timeoutOf standard.timeout
      pure ⟨base, workspace, algorithm, timeout⟩
  | _ => throw (.config .notAnObject)

/-- The configuration of a JSON text. -/
def ofText (env : Environment) (text : String) : Except Error Configuration :=
  match parse? text with
  | some json => ofJson env json
  | none => .error .json

/-- The variable that holds the base. -/
def baseVariable : String := "LDP_BASE_URL"

/-- The variable that holds the workspace. -/
def workspaceVariable : String := "LDP_DEFAULT_WORKSPACE"

/-- The configuration of the environment alone. -/
def ofEnvironment (env : Environment) : Configuration :=
  let base := (Setting.mk baseVariable standard.base).resolve env
  let workspace := (Setting.mk workspaceVariable standard.workspace).resolve env
  { standard with
    base := (base.map trimmedBase).getD standard.base
    workspace := workspace.getD standard.workspace }

/-- The configuration as a JSON object. -/
def toJson (c : Configuration) : Json :=
  .ofMembers
    [("baseUrl", .string c.base), ("defaultWorkspace", .string c.workspace),
      ("digestAlgorithm", .string c.algorithm.name),
      ("transactionTimeoutSecs", .number (.whole c.timeout))]

end Configuration

end LinkedStore
