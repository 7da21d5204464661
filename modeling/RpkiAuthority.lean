import RpkiAuthority.Aspa.Configuration
import RpkiAuthority.Aspa.Provider
import RpkiAuthority.Authority.Basic
import RpkiAuthority.Authority.Command
import RpkiAuthority.Authority.Event
import RpkiAuthority.Bgp.Index
import RpkiAuthority.Bgp.Riswhois
import RpkiAuthority.Bgp.Route
import RpkiAuthority.Collection.KeyOrder
import RpkiAuthority.Collection.OrdMap
import RpkiAuthority.Config.Logging
import RpkiAuthority.Config.Reader
import RpkiAuthority.Config.Settings
import RpkiAuthority.Digest.Sha256
import RpkiAuthority.Engine.Action
import RpkiAuthority.Engine.Basic
import RpkiAuthority.Engine.Dialogue
import RpkiAuthority.Engine.Error
import RpkiAuthority.Engine.Execution
import RpkiAuthority.Engine.Handlers
import RpkiAuthority.Engine.Maintenance
import RpkiAuthority.Engine.Process
import RpkiAuthority.Engine.Propagation
import RpkiAuthority.Engine.Running
import RpkiAuthority.Engine.Script
import RpkiAuthority.Engine.World
import RpkiAuthority.History.Audit
import RpkiAuthority.History.CommandType
import RpkiAuthority.History.Record
import RpkiAuthority.Json.Reader
import RpkiAuthority.Json.Value
import RpkiAuthority.Json.Writer
import RpkiAuthority.Log.Line
import RpkiAuthority.Metrics.Command
import RpkiAuthority.Metrics.Text
import RpkiAuthority.Number.Binary64
import RpkiAuthority.Number.Shortest
import RpkiAuthority.Proofs.Aspa.Difference
import RpkiAuthority.Proofs.Aspa.Notation
import RpkiAuthority.Proofs.Aspa.Rearranged
import RpkiAuthority.Proofs.Aspa.Submitted
import RpkiAuthority.Proofs.Authority.Built
import RpkiAuthority.Proofs.Authority.Configured
import RpkiAuthority.Proofs.Authority.Constituents
import RpkiAuthority.Proofs.Authority.Recertified
import RpkiAuthority.Proofs.Authority.Subscribers
import RpkiAuthority.Proofs.Authority.Supported
import RpkiAuthority.Proofs.Bgp.Dump
import RpkiAuthority.Proofs.Bgp.Index
import RpkiAuthority.Proofs.Bgp.Matching
import RpkiAuthority.Proofs.Bgp.Reloaded
import RpkiAuthority.Proofs.Collection.Lookup
import RpkiAuthority.Proofs.Concurrent.Disciplined
import RpkiAuthority.Proofs.Concurrent.Execution
import RpkiAuthority.Proofs.Concurrent.Holding
import RpkiAuthority.Proofs.Concurrent.Meanwhile
import RpkiAuthority.Proofs.Concurrent.Serial
import RpkiAuthority.Proofs.Concurrent.Serves
import RpkiAuthority.Proofs.Concurrent.SharedStore
import RpkiAuthority.Proofs.Config.Backoff
import RpkiAuthority.Proofs.Engine.Alone
import RpkiAuthority.Proofs.Engine.Answers
import RpkiAuthority.Proofs.Engine.Attempts
import RpkiAuthority.Proofs.Engine.Attributed
import RpkiAuthority.Proofs.Engine.Audience
import RpkiAuthority.Proofs.Engine.Blind
import RpkiAuthority.Proofs.Engine.Caught
import RpkiAuthority.Proofs.Engine.Course
import RpkiAuthority.Proofs.Engine.Decided
import RpkiAuthority.Proofs.Engine.Delivered
import RpkiAuthority.Proofs.Engine.Effect
import RpkiAuthority.Proofs.Engine.Entered
import RpkiAuthority.Proofs.Engine.Executed
import RpkiAuthority.Proofs.Engine.Failure
import RpkiAuthority.Proofs.Engine.Interchanged
import RpkiAuthority.Proofs.Engine.Levels
import RpkiAuthority.Proofs.Engine.Maintained
import RpkiAuthority.Proofs.Engine.Maintainers
import RpkiAuthority.Proofs.Engine.Moments
import RpkiAuthority.Proofs.Engine.Own
import RpkiAuthority.Proofs.Engine.Renamed
import RpkiAuthority.Proofs.Engine.Settled
import RpkiAuthority.Proofs.Engine.Steps
import RpkiAuthority.Proofs.Engine.Story
import RpkiAuthority.Proofs.Engine.Subscriptions
import RpkiAuthority.Proofs.Engine.Transient
import RpkiAuthority.Proofs.Engine.Undisturbed
import RpkiAuthority.Proofs.Engine.Verdict
import RpkiAuthority.Proofs.History.About
import RpkiAuthority.Proofs.History.Current
import RpkiAuthority.Proofs.History.Lines
import RpkiAuthority.Proofs.History.Timeless
import RpkiAuthority.Proofs.Json.Written
import RpkiAuthority.Proofs.Resource.AddressText
import RpkiAuthority.Proofs.Resource.Answers
import RpkiAuthority.Proofs.Resource.Bridging
import RpkiAuthority.Proofs.Resource.Canonical
import RpkiAuthority.Proofs.Resource.Collected
import RpkiAuthority.Proofs.Resource.Cut
import RpkiAuthority.Proofs.Resource.Decomposed
import RpkiAuthority.Proofs.Resource.Items
import RpkiAuthority.Proofs.Resource.Nested
import RpkiAuthority.Proofs.Resource.Read
import RpkiAuthority.Proofs.Resource.RoundTrip
import RpkiAuthority.Proofs.Resource.Separate
import RpkiAuthority.Proofs.Resource.Walks
import RpkiAuthority.Proofs.Runs.Basic
import RpkiAuthority.Proofs.Runs.Commuting
import RpkiAuthority.Proofs.Runs.Configured
import RpkiAuthority.Proofs.Runs.Recorded
import RpkiAuthority.Proofs.Runs.Recreated
import RpkiAuthority.Proofs.Runs.Stale
import RpkiAuthority.Proofs.Runs.Subscribed
import RpkiAuthority.Proofs.Runs.Supported
import RpkiAuthority.Proofs.Storage.Holders
import RpkiAuthority.Proofs.Storage.Interleaved
import RpkiAuthority.Proofs.Storage.Locking
import RpkiAuthority.Proofs.Storage.Release
import RpkiAuthority.Proofs.Storage.Session
import RpkiAuthority.Proofs.Storage.Written
import RpkiAuthority.Proofs.Stored.Authority
import RpkiAuthority.Proofs.Stored.Cut
import RpkiAuthority.Proofs.Stored.Event
import RpkiAuthority.Proofs.Stored.Kept
import RpkiAuthority.Proofs.Text.Lowered
import RpkiAuthority.Proofs.Text.Numerals
import RpkiAuthority.Proofs.Text.Pieces
import RpkiAuthority.Proofs.Text.Uuid
import RpkiAuthority.Proofs.Toml.Integers
import RpkiAuthority.Resource.Address
import RpkiAuthority.Resource.Asn
import RpkiAuthority.Resource.Block
import RpkiAuthority.Resource.Prefix
import RpkiAuthority.Resource.Set
import RpkiAuthority.Resource.Text
import RpkiAuthority.RoaAlert.Configuration
import RpkiAuthority.Storage.Error
import RpkiAuthority.Storage.Locks
import RpkiAuthority.Storage.Store
import RpkiAuthority.Storage.Transaction
import RpkiAuthority.Storage.VersionedId
import RpkiAuthority.Stored.Aspa
import RpkiAuthority.Stored.Authority
import RpkiAuthority.Stored.Basic
import RpkiAuthority.Stored.History
import RpkiAuthority.Stored.Record
import RpkiAuthority.Stored.Resource
import RpkiAuthority.Stored.RoaAlert
import RpkiAuthority.Text.Blank
import RpkiAuthority.Text.Decimal
import RpkiAuthority.Text.LetterCase
import RpkiAuthority.Text.Lowercase
import RpkiAuthority.Text.Pieces
import RpkiAuthority.Text.Reading
import RpkiAuthority.Time.Timestamp
import RpkiAuthority.Toml.Reader
import RpkiAuthority.Toml.Scalar
import RpkiAuthority.Toml.Value
import RpkiAuthority.Uuid
import RpkiAuthority.Proofs.Bgp.Uncovered
import RpkiAuthority.Proofs.Resource.Minimal
import RpkiAuthority.Proofs.Resource.Notation
import RpkiAuthority.Proofs.Bgp.Ordered
import RpkiAuthority.Proofs.Metrics.Exposition
import RpkiAuthority.Proofs.Metrics.Legible
