import LinkedStore.Address.IriMap
import LinkedStore.Address.Scope
import LinkedStore.Calendar.Instant
import LinkedStore.Calendar.Stamp
import LinkedStore.Configuration
import LinkedStore.Description.Aspect
import LinkedStore.Description.Assembly
import LinkedStore.Description.Embedding
import LinkedStore.Description.FixityReport
import LinkedStore.Description.Membership
import LinkedStore.Description.Namespaces
import LinkedStore.Description.Place
import LinkedStore.Description.Properties
import LinkedStore.Description.TypeSystem
import LinkedStore.Description.Typing
import LinkedStore.Description.Values
import LinkedStore.Description.Versions
import LinkedStore.Digest.Block
import LinkedStore.Digest.Sha1
import LinkedStore.Digest.Sha256
import LinkedStore.Error
import LinkedStore.Fixity
import LinkedStore.Form.Basic
import LinkedStore.Form.Description
import LinkedStore.Form.Rdf
import LinkedStore.Form.Store
import LinkedStore.Json.Basic
import LinkedStore.Json.Printer
import LinkedStore.Json.Reader
import LinkedStore.Number.Double
import LinkedStore.Number.Layout
import LinkedStore.Number.Shortest
import LinkedStore.Number.Word
import LinkedStore.Proofs.Address.RoundTrip
import LinkedStore.Proofs.Address.Scope
import LinkedStore.Proofs.Address.Subject
import LinkedStore.Proofs.Configuration
import LinkedStore.Proofs.Description.Assembly
import LinkedStore.Proofs.Description.Embedding
import LinkedStore.Proofs.Description.Exploration
import LinkedStore.Proofs.Description.FixityReport
import LinkedStore.Proofs.Description.Fragments
import LinkedStore.Proofs.Description.Halves
import LinkedStore.Proofs.Description.HalvesApart
import LinkedStore.Proofs.Description.InsertedContent
import LinkedStore.Proofs.Description.Membership
import LinkedStore.Proofs.Description.MembershipAgreement
import LinkedStore.Proofs.Description.MembershipCompleteness
import LinkedStore.Proofs.Description.Preference
import LinkedStore.Proofs.Description.Publication
import LinkedStore.Proofs.Description.References
import LinkedStore.Proofs.Description.Typing
import LinkedStore.Proofs.Description.WellFormed
import LinkedStore.Proofs.Fallible
import LinkedStore.Proofs.Host.Absolute
import LinkedStore.Proofs.Host.Binary
import LinkedStore.Proofs.Host.Chronicle
import LinkedStore.Proofs.Host.Filing
import LinkedStore.Proofs.Host.Frame
import LinkedStore.Proofs.Host.Identified
import LinkedStore.Proofs.Host.Integrity
import LinkedStore.Proofs.Host.Keeping
import LinkedStore.Proofs.Host.Ledger
import LinkedStore.Proofs.Host.Pinning
import LinkedStore.Proofs.Host.Reading
import LinkedStore.Proofs.Host.Refusal
import LinkedStore.Proofs.Host.Removal
import LinkedStore.Proofs.Host.Resemblance
import LinkedStore.Proofs.Host.Run
import LinkedStore.Proofs.Host.Snapshot
import LinkedStore.Proofs.Host.Tree
import LinkedStore.Proofs.Host.VersionLog
import LinkedStore.Proofs.Json.RoundTrip
import LinkedStore.Proofs.Number.Lexical
import LinkedStore.Proofs.Number.Shortest
import LinkedStore.Proofs.Rdf.Canonical
import LinkedStore.Proofs.Rdf.Order
import LinkedStore.Proofs.Rdf.Statement
import LinkedStore.Proofs.Resource.Container
import LinkedStore.Proofs.Resource.Naming
import LinkedStore.Proofs.Resource.TypeClosure
import LinkedStore.Proofs.Session.Effect
import LinkedStore.Proofs.Session.Integrity
import LinkedStore.Proofs.Store.Copies
import LinkedStore.Proofs.Store.Edit
import LinkedStore.Proofs.Store.Filing
import LinkedStore.Proofs.Store.Freeze
import LinkedStore.Proofs.Store.FreezeLoop
import LinkedStore.Proofs.Store.Integrity
import LinkedStore.Proofs.Store.Path
import LinkedStore.Proofs.Store.Snapshot
import LinkedStore.Proofs.Store.Table
import LinkedStore.Proofs.Stream.Concatenation
import LinkedStore.Proofs.Stream.Equivalence
import LinkedStore.Proofs.Stream.Expression
import LinkedStore.Proofs.Stream.Holding
import LinkedStore.Proofs.Stream.Items
import LinkedStore.Proofs.Stream.Trace
import LinkedStore.Proofs.Text.Bytes
import LinkedStore.Proofs.Text.Cut
import LinkedStore.Proofs.Transaction.Event
import LinkedStore.Proofs.Transaction.Expiry
import LinkedStore.Proofs.Transaction.Idle
import LinkedStore.Proofs.Transaction.Publication
import LinkedStore.Proofs.Transaction.Release
import LinkedStore.Proofs.Transaction.Run
import LinkedStore.Proofs.Transaction.Scope
import LinkedStore.Rdf.Graph
import LinkedStore.Rdf.Hashing
import LinkedStore.Rdf.Term
import LinkedStore.Rdf.Triple
import LinkedStore.Resource.Basic
import LinkedStore.Resource.Naming
import LinkedStore.Resource.TypeClosure
import LinkedStore.Session.Basic
import LinkedStore.Session.Fault
import LinkedStore.Session.Host
import LinkedStore.Session.Mutation
import LinkedStore.Session.Reader
import LinkedStore.Store.Checkin
import LinkedStore.Store.Node
import LinkedStore.Store.Path
import LinkedStore.Store.Property
import LinkedStore.Store.Repository
import LinkedStore.Store.Table
import LinkedStore.Store.Value
import LinkedStore.Store.Workspace
import LinkedStore.Stream.Basic
import LinkedStore.Stream.Flow
import LinkedStore.Text.Cut
import LinkedStore.Text.Glyphless
import LinkedStore.Text.Hex
import LinkedStore.Text.Quoted
import LinkedStore.Text.Utf8
import LinkedStore.Transaction.Gateway
import LinkedStore.Transaction.Registry
import LinkedStore.Vocab
