import HyperSchema.Context.Basic
import HyperSchema.Context.Requests
import HyperSchema.Json.Basic
import HyperSchema.Json.Equal
import HyperSchema.Json.Parser
import HyperSchema.Json.Printer
import HyperSchema.Model.Basic
import HyperSchema.Model.Cache
import HyperSchema.Model.Errors
import HyperSchema.Model.Handles
import HyperSchema.Model.View
import HyperSchema.NameSet
import HyperSchema.Number.Binary64
import HyperSchema.Number.Multiple
import HyperSchema.Number.Shortest
import HyperSchema.Options
import HyperSchema.Pattern.Basic
import HyperSchema.Pattern.Class
import HyperSchema.Pattern.Match
import HyperSchema.Pattern.Parser
import HyperSchema.Pattern.Syntax
import HyperSchema.Pointer.Access
import HyperSchema.Pointer.Basic
import HyperSchema.Pointer.Lineage
import HyperSchema.Pointer.Places
import HyperSchema.Proofs.Comparison
import HyperSchema.Proofs.Context.Answers
import HyperSchema.Proofs.Context.Cleaning
import HyperSchema.Proofs.Context.Failures
import HyperSchema.Proofs.Context.Rounds
import HyperSchema.Proofs.Context.Sharing
import HyperSchema.Proofs.Context.Tasks
import HyperSchema.Proofs.Divisibility
import HyperSchema.Proofs.Flat
import HyperSchema.Proofs.Integrality
import HyperSchema.Proofs.Json.Duplicates
import HyperSchema.Proofs.Json.Equal
import HyperSchema.Proofs.Json.Parts
import HyperSchema.Proofs.Json.Steps
import HyperSchema.Proofs.Model.Changes
import HyperSchema.Proofs.Model.Expiry
import HyperSchema.Proofs.Model.HandleTree
import HyperSchema.Proofs.Model.Registrations
import HyperSchema.Proofs.Model.SchemaChanges
import HyperSchema.Proofs.Model.Walks
import HyperSchema.Proofs.NameSet
import HyperSchema.Proofs.Number.Multiples
import HyperSchema.Proofs.Number.Order
import HyperSchema.Proofs.Number.Rounding
import HyperSchema.Proofs.Outstanding
import HyperSchema.Proofs.Pointer.Correspondence
import HyperSchema.Proofs.Pointer.Escape
import HyperSchema.Proofs.Pointer.Lens
import HyperSchema.Proofs.Pointer.Lineage
import HyperSchema.Proofs.Pointer.Resolution
import HyperSchema.Proofs.Pointer.Subtrees
import HyperSchema.Proofs.Pointer.Tokens
import HyperSchema.Proofs.Pointer.Writing
import HyperSchema.Proofs.Registry.Absent
import HyperSchema.Proofs.Registry.Arrival
import HyperSchema.Proofs.Registry.Askable
import HyperSchema.Proofs.Registry.Bound
import HyperSchema.Proofs.Registry.Closure
import HyperSchema.Proofs.Registry.Confluence
import HyperSchema.Proofs.Registry.Demand
import HyperSchema.Proofs.Registry.Drain
import HyperSchema.Proofs.Registry.Entries
import HyperSchema.Proofs.Registry.Inline
import HyperSchema.Proofs.Registry.Lookups
import HyperSchema.Proofs.Registry.OneShot
import HyperSchema.Proofs.Registry.Readings
import HyperSchema.Proofs.Registry.Snapshots
import HyperSchema.Proofs.Registry.Supply
import HyperSchema.Proofs.Registry.Turns
import HyperSchema.Proofs.Registry.Visits
import HyperSchema.Proofs.Schema.Agreement
import HyperSchema.Proofs.Schema.Assertions
import HyperSchema.Proofs.Schema.Branches
import HyperSchema.Proofs.Schema.Composition
import HyperSchema.Proofs.Schema.Dispatch
import HyperSchema.Proofs.Schema.Items
import HyperSchema.Proofs.Schema.Located
import HyperSchema.Proofs.Schema.Members
import HyperSchema.Proofs.Schema.Parts
import HyperSchema.Proofs.Schema.Reading
import HyperSchema.Proofs.Schema.Satisfaction
import HyperSchema.Proofs.Schema.Segments
import HyperSchema.Proofs.SchemaUri
import HyperSchema.Proofs.Session.Drive
import HyperSchema.Proofs.Session.Lasting
import HyperSchema.Proofs.Session.Leases
import HyperSchema.Proofs.Session.Operations
import HyperSchema.Proofs.Session.Ready
import HyperSchema.Proofs.Session.Selection
import HyperSchema.Proofs.Session.Telling
import HyperSchema.Proofs.Session.Waiting
import HyperSchema.Proofs.Session.Wakeups
import HyperSchema.Proofs.Store.Additions
import HyperSchema.Proofs.Store.Addresses
import HyperSchema.Proofs.Store.Circles
import HyperSchema.Proofs.Store.Corpus
import HyperSchema.Proofs.Store.Documents
import HyperSchema.Proofs.Store.Fragments
import HyperSchema.Proofs.Store.Growth
import HyperSchema.Proofs.Store.Ids
import HyperSchema.Proofs.Store.Layers
import HyperSchema.Proofs.Store.Local
import HyperSchema.Proofs.Store.Noted
import HyperSchema.Proofs.Store.References
import HyperSchema.Proofs.Store.Rewriting
import HyperSchema.Proofs.Store.Scopes
import HyperSchema.Proofs.Store.Siblings
import HyperSchema.Proofs.Store.Substitution
import HyperSchema.Proofs.Store.Targets
import HyperSchema.Proofs.Store.Termination
import HyperSchema.Proofs.Store.Tidy
import HyperSchema.Proofs.Store.Trail
import HyperSchema.Proofs.Store.Unreferenced
import HyperSchema.Proofs.Table
import HyperSchema.Proofs.Template.Conformance
import HyperSchema.Proofs.Template.Encoding
import HyperSchema.Proofs.Template.Members
import HyperSchema.Proofs.Template.Output
import HyperSchema.Proofs.Template.Parsing
import HyperSchema.Proofs.Template.Standard
import HyperSchema.Proofs.Template.Written
import HyperSchema.Proofs.Text.Cut
import HyperSchema.Proofs.Text.Utf8
import HyperSchema.Proofs.Transport.Containment
import HyperSchema.Proofs.Transport.DescribedBy
import HyperSchema.Proofs.Transport.WebLink
import HyperSchema.Proofs.Url.Hosts
import HyperSchema.Proofs.Url.Joining
import HyperSchema.Proofs.Url.Parts
import HyperSchema.Proofs.Url.Siblings
import HyperSchema.Proofs.Validation.Accumulation
import HyperSchema.Proofs.Validation.Aliases
import HyperSchema.Proofs.Validation.Alone
import HyperSchema.Proofs.Validation.Asking
import HyperSchema.Proofs.Validation.Assignments
import HyperSchema.Proofs.Validation.Calls
import HyperSchema.Proofs.Validation.Guard
import HyperSchema.Proofs.Validation.Jobs
import HyperSchema.Proofs.Validation.Locations
import HyperSchema.Proofs.Validation.Nesting
import HyperSchema.Proofs.Validation.Occurrences
import HyperSchema.Proofs.Validation.Omission
import HyperSchema.Proofs.Validation.PathMap
import HyperSchema.Proofs.Validation.Places
import HyperSchema.Proofs.Validation.Plan
import HyperSchema.Proofs.Validation.Polarity
import HyperSchema.Proofs.Validation.Recording
import HyperSchema.Proofs.Validation.Relocation
import HyperSchema.Proofs.Validation.Sources
import HyperSchema.Proofs.Validation.Verdict
import HyperSchema.Proofs.Validity
import HyperSchema.Registry
import HyperSchema.SchemaUri
import HyperSchema.Session.Background
import HyperSchema.Session.Basic
import HyperSchema.Session.Opening
import HyperSchema.Store.Basic
import HyperSchema.Store.Resolution
import HyperSchema.Store.Scan
import HyperSchema.Table
import HyperSchema.Template.Basic
import HyperSchema.Template.Expand
import HyperSchema.Text.Count
import HyperSchema.Text.Cut
import HyperSchema.Text.Percent
import HyperSchema.Text.Quoted
import HyperSchema.Text.Utf8
import HyperSchema.Transport.DescribedBy
import HyperSchema.Transport.Directory
import HyperSchema.Transport.FileTree
import HyperSchema.Transport.Headers
import HyperSchema.Transport.Memory
import HyperSchema.Transport.Response
import HyperSchema.Unicode.CaseFold
import HyperSchema.Unicode.Category
import HyperSchema.Unicode.CharSet
import HyperSchema.Unicode.Loose
import HyperSchema.Unicode.Property
import HyperSchema.Unicode.Runs
import HyperSchema.Unicode.Script
import HyperSchema.Url.Basic
import HyperSchema.Url.Host
import HyperSchema.Url.Parser
import HyperSchema.Url.Path
import HyperSchema.Url.Punycode
import HyperSchema.Validation.Assertion
import HyperSchema.Validation.ErrorCode
import HyperSchema.Validation.Evaluation
import HyperSchema.Validation.Node
import HyperSchema.Validation.Reading
import HyperSchema.Validation.Snapshot
import HyperSchema.Validation.State
import HyperSchema.Validation.Violation
