import SettingsTree.Config
import SettingsTree.Decimal.Double
import SettingsTree.Digest
import SettingsTree.Json.Draft
import SettingsTree.Json.Numeral
import SettingsTree.Json.Printer
import SettingsTree.Json.Reader
import SettingsTree.Json.Value
import SettingsTree.Keyed
import SettingsTree.Name.Local
import SettingsTree.Path.Check
import SettingsTree.Path.Step
import SettingsTree.Projection.Keys
import SettingsTree.Projection.Nesting
import SettingsTree.Schema.Basic
import SettingsTree.Schema.Compile
import SettingsTree.Schema.Descriptor
import SettingsTree.Schema.Entry
import SettingsTree.Schema.Persisted
import SettingsTree.Schema.Selection
import SettingsTree.Session.Action
import SettingsTree.Session.Collection
import SettingsTree.Session.Connect
import SettingsTree.Session.Describe
import SettingsTree.Session.Lookup
import SettingsTree.Session.Memory
import SettingsTree.Session.Node
import SettingsTree.Session.Operation
import SettingsTree.Session.Remote
import SettingsTree.Session.State
import SettingsTree.Text.Basic
import SettingsTree.Text.Lowercase
import SettingsTree.Text.Quoted
import SettingsTree.Toml.Quoted
import SettingsTree.Toml.Reader
import SettingsTree.Toml.Scalar
import SettingsTree.Toml.Writer
import SettingsTree.Proofs.Json.Alike
import SettingsTree.Proofs.Json.Canonical
import SettingsTree.Proofs.Json.Numeral
import SettingsTree.Proofs.Json.ReadBack
import SettingsTree.Proofs.Json.Scalar
import SettingsTree.Proofs.Json.Token
import SettingsTree.Proofs.Json.Unique
import SettingsTree.Proofs.Json.Written
import SettingsTree.Proofs.Keyed
import SettingsTree.Proofs.Name.Local
import SettingsTree.Proofs.Name.Numbering
import SettingsTree.Proofs.Name.Settled
import SettingsTree.Proofs.Name.Siblings
import SettingsTree.Proofs.Name.SnakeCase
import SettingsTree.Proofs.Ordering
import SettingsTree.Proofs.Path.Accepted
import SettingsTree.Proofs.Path.Inverse
import SettingsTree.Proofs.Path.MemberKey
import SettingsTree.Proofs.Path.Parent
import SettingsTree.Proofs.Path.Parsed
import SettingsTree.Proofs.Path.Written
import SettingsTree.Proofs.Pointwise
import SettingsTree.Proofs.Projection.ByDepth
import SettingsTree.Proofs.Projection.Collected
import SettingsTree.Proofs.Projection.Container
import SettingsTree.Proofs.Projection.Entries
import SettingsTree.Proofs.Projection.Flattened
import SettingsTree.Proofs.Projection.LocalForm
import SettingsTree.Proofs.Projection.Nested
import SettingsTree.Proofs.Projection.NestedForm
import SettingsTree.Proofs.Projection.OwnPath
import SettingsTree.Proofs.Projection.RemoteForm
import SettingsTree.Proofs.Projection.Reordered
import SettingsTree.Proofs.Projection.Separate
import SettingsTree.Proofs.Schema.Acceptance
import SettingsTree.Proofs.Schema.Agreement
import SettingsTree.Proofs.Schema.Decided
import SettingsTree.Proofs.Schema.Find
import SettingsTree.Proofs.Schema.Format
import SettingsTree.Proofs.Schema.Lookup
import SettingsTree.Proofs.Schema.Ordinals
import SettingsTree.Proofs.Schema.Persisted
import SettingsTree.Proofs.Schema.Position
import SettingsTree.Proofs.Schema.Reading
import SettingsTree.Proofs.Schema.Reserved
import SettingsTree.Proofs.Schema.Reuse
import SettingsTree.Proofs.Schema.Settings
import SettingsTree.Proofs.Schema.Shipped
import SettingsTree.Proofs.Schema.Ties
import SettingsTree.Proofs.Schema.Translation
import SettingsTree.Proofs.Schema.Tree
import SettingsTree.Proofs.Schema.Unordered
import SettingsTree.Proofs.Schema.Way
import SettingsTree.Proofs.Schema.WellFormed
import SettingsTree.Proofs.Session.Addressable
import SettingsTree.Proofs.Session.Anonymous
import SettingsTree.Proofs.Session.Client
import SettingsTree.Proofs.Session.Detached
import SettingsTree.Proofs.Session.Direct
import SettingsTree.Proofs.Session.Ended
import SettingsTree.Proofs.Session.Failure
import SettingsTree.Proofs.Session.FirstFailure
import SettingsTree.Proofs.Session.Follow
import SettingsTree.Proofs.Session.Found
import SettingsTree.Proofs.Session.History
import SettingsTree.Proofs.Session.Index
import SettingsTree.Proofs.Session.Invocation
import SettingsTree.Proofs.Session.Keeper
import SettingsTree.Proofs.Session.Linked
import SettingsTree.Proofs.Session.Lookup
import SettingsTree.Proofs.Session.Mirror
import SettingsTree.Proofs.Session.PassedThrough
import SettingsTree.Proofs.Session.Place
import SettingsTree.Proofs.Session.Reachable
import SettingsTree.Proofs.Session.Registry
import SettingsTree.Proofs.Session.Resolve
import SettingsTree.Proofs.Session.Simulation
import SettingsTree.Proofs.Session.Sound
import SettingsTree.Proofs.Session.Step
import SettingsTree.Proofs.Session.Targets
import SettingsTree.Proofs.Session.Told
import SettingsTree.Proofs.Session.Trace
import SettingsTree.Proofs.Session.Transparency
import SettingsTree.Proofs.Session.Turn
import SettingsTree.Proofs.Session.Unindexed
import SettingsTree.Proofs.Session.Writing
import SettingsTree.Proofs.Text.Lowercase
import SettingsTree.Proofs.Text.Pattern
