import ZoneRelay.Main
import ZoneRelay.Cluster.Basic
import ZoneRelay.Store.Subscription
import ZoneRelay.Store.Writes
import ZoneRelay.Tasks
import ZoneRelay.Proofs.Text.Numeral
import ZoneRelay.Proofs.Text.Instant
import ZoneRelay.Proofs.Json.RoundTrip
import ZoneRelay.Proofs.Change.Wire
import ZoneRelay.Proofs.Text.Start
import ZoneRelay.Proofs.Store.Table
import ZoneRelay.Proofs.Name
import ZoneRelay.Proofs.Success
import ZoneRelay.Proofs.Text.Blank
import ZoneRelay.Proofs.Text.Cut
import ZoneRelay.Proofs.Address.IPv4
import ZoneRelay.Proofs.Address.IPv6
import ZoneRelay.Proofs.Name.Wire
import ZoneRelay.Proofs.Name.Within
import ZoneRelay.Proofs.Record.Data
import ZoneRelay.Proofs.Record.Encoding
import ZoneRelay.Proofs.Trie.Forest
import ZoneRelay.Proofs.Store.Contents
import ZoneRelay.Proofs.Store.Commit
import ZoneRelay.Proofs.Store.Subscription
import ZoneRelay.Proofs.Store.Snapshot
import ZoneRelay.Proofs.Store.Key
import ZoneRelay.Proofs.Store.Listing
import ZoneRelay.Proofs.Store.FilePath
import ZoneRelay.Proofs.Store.Saving
import ZoneRelay.Proofs.Settings.NodePath
import ZoneRelay.Proofs.Trie.Basic
import ZoneRelay.Proofs.Trie.Edits
import ZoneRelay.Proofs.Trie.Longest
import ZoneRelay.Proofs.Trie.Canonical
import ZoneRelay.Proofs.Resolver.Plan
import ZoneRelay.Proofs.Resolver.Index
import ZoneRelay.Proofs.Resolver.Sound
import ZoneRelay.Proofs.Resolver.Mirror
import ZoneRelay.Proofs.Bus.Basic
import ZoneRelay.Proofs.Bus.Reach
import ZoneRelay.Proofs.Resolver.History
import ZoneRelay.Proofs.Resolver.Replay
import ZoneRelay.Proofs.Resolver.Confluence
import ZoneRelay.Proofs.Resolver.Isolation
import ZoneRelay.Proofs.Resolver.Proper
import ZoneRelay.Proofs.Resolver.Answer
import ZoneRelay.Proofs.Resolver.Fit
import ZoneRelay.Proofs.Resolver.Restart
import ZoneRelay.Proofs.Resolver.Window
import ZoneRelay.Proofs.Resolver.Tearing
import ZoneRelay.Proofs.Resolver.RecordSets
import ZoneRelay.Proofs.Resolver.Atomicity
import ZoneRelay.Proofs.Resolver.Redelivery
import ZoneRelay.Proofs.Resolver.ReadBack
import ZoneRelay.Proofs.Resolver.Retry
import ZoneRelay.Proofs.Ledger.Progress
import ZoneRelay.Proofs.Ledger.Order
import ZoneRelay.Proofs.Ledger.Calls
import ZoneRelay.Proofs.Ledger.WellFormed
import ZoneRelay.Proofs.Ledger.Front
import ZoneRelay.Proofs.Ledger.Dispatch
import ZoneRelay.Proofs.Ledger.Updates
import ZoneRelay.Proofs.Ledger.Purge
import ZoneRelay.Proofs.Relay.Operation
import ZoneRelay.Proofs.Relay.Digest
import ZoneRelay.Proofs.Relay.Encounter
import ZoneRelay.Proofs.Relay.Acknowledgment
import ZoneRelay.Proofs.Relay.Forgetting
import ZoneRelay.Proofs.Relay.Delivery
import ZoneRelay.Proofs.Relay.Step
import ZoneRelay.Proofs.Relay.Sane
import ZoneRelay.Proofs.Relay.InSync
import ZoneRelay.Proofs.Relay.Convergence
import ZoneRelay.Proofs.Relay.NoLoss
import ZoneRelay.Proofs.Relay.Line
import ZoneRelay.Proofs.Relay.Overtaking
import ZoneRelay.Proofs.Relay.Course
import ZoneRelay.Proofs.Relay.OnePass
import ZoneRelay.Proofs.Relay.HeadOfLine
