/-!
# Failures

Every fallible operation of the library fails with a cause.  Absence that means something, such as
an IRI outside the repository, is not a failure; a cause is either a read or write that the store
refused, something that a caller asked for and that is not there, or input that cannot be read.

## Main definitions

* `Error` : the causes.
* `Error.message` : the text shown for a cause.
-/

namespace LinkedStore

/-- A read or write that the store refused. -/
inductive Refusal where
  | workspaceExists (name : String)
  | sessionClosed (workspace : String)
  | nodeExists (path : String)
  | nodeVanished (path : String)
  | notVersionable (path : String)
  | frozenNodeExists (path : String)
  | staleChanges (workspace : String)
  | noDescription (path : String)
  | notBinary (path : String)
  /-- A refusal with a text of its own. -/
  | stated (reason : String)
  deriving DecidableEq, Repr

namespace Refusal

/-- The text shown for a refusal. -/
def message : Refusal → String
  | workspaceExists name => "workspace " ++ name ++ " already exists"
  | sessionClosed workspace => "session on workspace " ++ workspace ++ " is closed"
  | nodeExists path => "node " ++ path ++ " already exists"
  | nodeVanished path => "node " ++ path ++ " vanished after create"
  | notVersionable path => "node " ++ path ++ " is not versionable"
  | frozenNodeExists path => "frozen node " ++ path ++ " already exists"
  | staleChanges workspace =>
      "workspace " ++ workspace ++
        " was saved by another session since these changes were staged"
  | noDescription path => "binary " ++ path ++ " has no description"
  | notBinary path => "fixity requested on non-binary resource " ++ path
  | stated reason => reason

end Refusal

/-- Something that was asked for and is not there. -/
inductive Missing where
  | workspace (name : String)
  | node (path : String)
  | resource (path : String)
  | history (path : String)
  | version (name path : String)
  | content (path : String)
  | contentDigest (path : String)
  | contentSize (path : String)
  | referenceTarget (identifier : String)
  deriving DecidableEq, Repr

namespace Missing

/-- The text shown for what is missing. -/
def message : Missing → String
  | workspace name => "workspace " ++ name
  | node path => "node " ++ path
  | resource path => "resource " ++ path
  | history path => "version history of " ++ path
  | version name path => "version " ++ name ++ " of " ++ path
  | content path => "binary content at " ++ path
  | contentDigest path => "content digest of " ++ path
  | contentSize path => "content size of " ++ path
  | referenceTarget identifier => "reference target " ++ identifier

end Missing

/-- A path that cannot be used. -/
inductive PathFault where
  | noParent (path : String)
  | emptyTransaction (request : String)
  | emptyWorkspace (request : String)
  deriving DecidableEq, Repr

namespace PathFault

/-- The text shown for a path that cannot be used. -/
def message : PathFault → String
  | noParent path => path
  | emptyTransaction request => "empty transaction id in " ++ request
  | emptyWorkspace request => "empty workspace name in " ++ request

end PathFault

/-- A configuration that cannot be used. -/
inductive ConfigFault where
  | notAnObject
  | emptyBase
  | unknownAlgorithm (name : String)
  | timeoutNotANumber (text : String)
  /-- A field whose value, shown as JSON, is of no use. -/
  | unsupportedValue (field value : String)
  deriving DecidableEq, Repr

namespace ConfigFault

/-- The text shown for a configuration that cannot be used. -/
def message : ConfigFault → String
  | notAnObject => "kernel configuration must be a JSON object"
  | emptyBase => "baseUrl must not be empty"
  | unknownAlgorithm name => "unsupported digest algorithm: " ++ name
  | timeoutNotANumber text => "transactionTimeoutSecs is not a number: " ++ text
  | unsupportedValue field value => "unsupported value for " ++ field ++ ": " ++ value

end ConfigFault

/-- The cause of a failure. -/
inductive Error where
  | repository (refusal : Refusal)
  | notFound (missing : Missing)
  /-- A name whose first part no namespace is registered under. -/
  | unregisteredPrefix (lead name : String)
  /-- A name without the mark between its two parts. -/
  | malformedName (name : String)
  | transactionMissing (id : String)
  | invalidPath (fault : PathFault)
  | config (fault : ConfigFault)
  /-- A JSON text or value that is not of the form asked for. -/
  | json
  deriving DecidableEq, Repr

namespace Error

/-- The text shown for a cause. -/
def message : Error → String
  | repository refusal => "Repository error: " ++ refusal.message
  | notFound missing => "Not found: " ++ missing.message
  | unregisteredPrefix lead name =>
      "Unregistered namespace prefix '" ++ lead ++ "' in name '" ++ name ++ "'"
  | malformedName name => "Malformed type name: " ++ name
  | transactionMissing id => "Transaction not found: " ++ id
  | invalidPath fault => "Invalid path: " ++ fault.message
  | config fault => "Configuration error: " ++ fault.message
  | json => "JSON error"

/-- The failure of a read or write that the store refuses for a reason of its own. -/
def refused (reason : String) : Error := .repository (.stated reason)

end Error

end LinkedStore
