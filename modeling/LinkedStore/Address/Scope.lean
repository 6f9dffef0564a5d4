import LinkedStore.Error
import LinkedStore.Store.Path

/-!
# Scopes of requests

The path of a request may begin with a segment that scopes it to a transaction or to a workspace.
The rest is a path of the store.

## Main definitions

* `Scope` : what a request reads through.
* `Scope.segment?` : the segment of a scope.
* `ScopedPath.parse` : the path of a request as scope and path of the store.
-/

namespace LinkedStore

/-- What a request reads through. -/
inductive Scope where
  | standard
  | transaction (id : String)
  | workspace (name : String)
  deriving DecidableEq, Repr

namespace Scope

/-- The beginning of the segment of a transaction. -/
def transactionMark : String := "tx:"

/-- The beginning of the segment of a workspace. -/
def workspaceMark : String := "workspace:"

/-- The segment that a scope adds to IRIs. -/
def segment? : Scope → Option String
  | standard => none
  | transaction id => some (transactionMark ++ id)
  | workspace name => some (workspaceMark ++ name)

end Scope

/-- A path of the store and the scope it is read through. -/
structure ScopedPath where
  scope : Scope
  path : String
  deriving DecidableEq, Repr

namespace ScopedPath

/-- The first segment of a request, and the path behind it; the path ends in a slash of its own if
there is none. -/
def splitRequest (request : List Char) : List Char × List Char :=
  let trimmed := (Text.after? ['/'] request).getD request
  match Text.cutFirst '/' trimmed with
  | some (first, rest) => (first, '/' :: rest)
  | none => (trimmed, ['/'])

/-- The path of a request as scope and path of the store. -/
def parse (request : String) : Except Error ScopedPath :=
  let (first, rest) := splitRequest request.toList
  match Text.after? Scope.transactionMark.toList first with
  | some [] => .error (.invalidPath (.emptyTransaction request))
  | some id => .ok ⟨.transaction (String.ofList id), String.ofList rest⟩
  | none =>
      match Text.after? Scope.workspaceMark.toList first with
      | some [] => .error (.invalidPath (.emptyWorkspace request))
      | some name => .ok ⟨.workspace (String.ofList name), String.ofList rest⟩
      | none =>
          if Path.beginsWith "/" request then .ok ⟨.standard, request⟩
          else .ok ⟨.standard, "/" ++ request⟩

end ScopedPath

end LinkedStore
