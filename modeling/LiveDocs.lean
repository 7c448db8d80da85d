import LiveDocs.Backend
import LiveDocs.Channel
import LiveDocs.Client
import LiveDocs.Command
import LiveDocs.Database.Audience
import LiveDocs.Database.Basic
import LiveDocs.Document.Basic
import LiveDocs.Document.Descriptor
import LiveDocs.Document.Error
import LiveDocs.Document.Format
import LiveDocs.Document.Replica
import LiveDocs.Document.Row
import LiveDocs.DocumentId
import LiveDocs.Double.Basic
import LiveDocs.Double.Shortest
import LiveDocs.Engine.Basic
import LiveDocs.Engine.Control
import LiveDocs.Engine.Job
import LiveDocs.Engine.Progress
import LiveDocs.Engine.Run
import LiveDocs.Events
import LiveDocs.Feed
import LiveDocs.FileTree
import LiveDocs.History
import LiveDocs.Journal.Basic
import LiveDocs.Journal.Block
import LiveDocs.Journal.Bytes
import LiveDocs.Journal.Entry
import LiveDocs.Journal.Varint
import LiveDocs.Json.Basic
import LiveDocs.Json.Numeral
import LiveDocs.Json.Printer
import LiveDocs.Json.Reader
import LiveDocs.Json.Token
import LiveDocs.Path
import LiveDocs.Proofs.Database.Actions
import LiveDocs.Proofs.Database.Effects
import LiveDocs.Proofs.Database.Following
import LiveDocs.Proofs.Database.Recovery
import LiveDocs.Proofs.Database.Restore
import LiveDocs.Proofs.Document.Convergence
import LiveDocs.Proofs.Document.Format
import LiveDocs.Proofs.Document.Independence
import LiveDocs.Proofs.Document.Ingest
import LiveDocs.Proofs.Document.Registration
import LiveDocs.Proofs.Document.Replica
import LiveDocs.Proofs.Events
import LiveDocs.Proofs.Feed.Delivery
import LiveDocs.Proofs.History
import LiveDocs.Proofs.InsertionSort
import LiveDocs.Proofs.Journal.Encoding
import LiveDocs.Proofs.Journal.Frames
import LiveDocs.Proofs.Journal.Reopen
import LiveDocs.Proofs.Json.Equality
import LiveDocs.Proofs.Json.Numerals
import LiveDocs.Proofs.Json.RoundTrip
import LiveDocs.Proofs.Record
import LiveDocs.Proofs.RecordSet
import LiveDocs.Proofs.RecordSet.Diff
import LiveDocs.Proofs.SortedMap
import LiveDocs.Proofs.Table.Frames
import LiveDocs.Proofs.Table.Writes
import LiveDocs.Proofs.Text.Compaction
import LiveDocs.Proofs.Text.Diff
import LiveDocs.Proofs.Text.Script
import LiveDocs.Query.Basic
import LiveDocs.Query.Response
import LiveDocs.Record
import LiveDocs.RecordSet
import LiveDocs.Registry
import LiveDocs.Report
import LiveDocs.Schema
import LiveDocs.Server
import LiveDocs.Settings
import LiveDocs.Sha1
import LiveDocs.SortedMap
import LiveDocs.Table
import LiveDocs.Text.Blank
import LiveDocs.Text.Compaction
import LiveDocs.Text.Diff
import LiveDocs.Text.Patch
import LiveDocs.Text.Quoted
import LiveDocs.Text.Script
import LiveDocs.Proofs.Database.HeldWrites
import LiveDocs.Proofs.Record.Keys
import LiveDocs.Proofs.Database.Isolation
import LiveDocs.Proofs.Document.Withdrawal
import LiveDocs.Proofs.Table.Waiting
import LiveDocs.Proofs.Events.Queues
import LiveDocs.Proofs.Events.FanOut
import LiveDocs.Proofs.Document.Life
import LiveDocs.Proofs.Engine.Deeds
import LiveDocs.Proofs.Engine.Lifecycle
import LiveDocs.Proofs.Engine.Looks
import LiveDocs.Proofs.Engine.Membership
import LiveDocs.Proofs.Engine.Runs
import LiveDocs.Proofs.Engine.Sessions
import LiveDocs.Proofs.Document.Placement
import LiveDocs.Proofs.Engine.Commits
import LiveDocs.Proofs.Text.Replacement
import LiveDocs.Proofs.Document.Versions
import LiveDocs.Proofs.Journal.Checksum
import LiveDocs.Proofs.Journal.Scanning
import LiveDocs.Proofs.Json.Reading
import LiveDocs.Proofs.RecordSet.TextForm
import LiveDocs.Proofs.Document.Contents
import LiveDocs.Proofs.Engine.Loading
import LiveDocs.Proofs.Double.Interval
import LiveDocs.Proofs.Double.Shortest
import LiveDocs.Proofs.Double.Text
import LiveDocs.Proofs.Json.Distinct
import LiveDocs.Proofs.RecordSet.Keyed
import LiveDocs.Proofs.RecordSet.Commuting
import LiveDocs.Proofs.Document.PatchRows
import LiveDocs.Proofs.Document.Descriptors
import LiveDocs.Proofs.Engine.Ownership
import LiveDocs.Proofs.Engine.Trees
import LiveDocs.Proofs.Text.Landing
import LiveDocs.Proofs.Document.CommitPhases
import LiveDocs.Proofs.Engine.CommitLooks
import LiveDocs.Proofs.Engine.Solitude
