import RecordLinkage.Block
import RecordLinkage.Block.Exchange
import RecordLinkage.Cache
import RecordLinkage.Cache.Fetch
import RecordLinkage.Catalog
import RecordLinkage.Cluster.Graph
import RecordLinkage.Cluster.Transaction
import RecordLinkage.Config
import RecordLinkage.Decimal.Reading
import RecordLinkage.Decimal.Shortest
import RecordLinkage.DirectoryLock
import RecordLinkage.Double
import RecordLinkage.Entity
import RecordLinkage.Error
import RecordLinkage.Feedback
import RecordLinkage.Feedback.Service
import RecordLinkage.Feedback.Table
import RecordLinkage.Form
import RecordLinkage.Host
import RecordLinkage.Id
import RecordLinkage.Index
import RecordLinkage.Journal
import RecordLinkage.Journal.Checksum
import RecordLinkage.Journal.Frame
import RecordLinkage.Json
import RecordLinkage.Json.Access
import RecordLinkage.Json.Number
import RecordLinkage.Json.Reader
import RecordLinkage.Json.Record
import RecordLinkage.Json.Text
import RecordLinkage.Linking
import RecordLinkage.Lock
import RecordLinkage.Match
import RecordLinkage.Match.Scores
import RecordLinkage.Match.Table
import RecordLinkage.Membership
import RecordLinkage.Membership.Log
import RecordLinkage.Membership.Table
import RecordLinkage.Power
import RecordLinkage.Program
import RecordLinkage.Session
import RecordLinkage.Session.Overview
import RecordLinkage.Store
import RecordLinkage.Store.Change
import RecordLinkage.Store.Tables
import RecordLinkage.System
import RecordLinkage.Text.Blank
import RecordLinkage.Text.Hex
import RecordLinkage.Time
import RecordLinkage.Time.Rfc3339
import RecordLinkage.Value
import RecordLinkage.Value.Hashing
import RecordLinkage.World
import RecordLinkage.Proofs.Ascending
import RecordLinkage.Proofs.Match.Table
import RecordLinkage.Proofs.Match.Scores
import RecordLinkage.Proofs.Match.Rows
import RecordLinkage.Proofs.Membership.Fold
import RecordLinkage.Proofs.Program.Ensures
import RecordLinkage.Proofs.Program.Reaches
import RecordLinkage.Proofs.Block.Exchange
import RecordLinkage.Proofs.Cache.Entries
import RecordLinkage.Proofs.Cache.Loads
import RecordLinkage.Proofs.Linking.Graph
import RecordLinkage.Proofs.Linking.Footprint
import RecordLinkage.Proofs.Linking.Moves
import RecordLinkage.Proofs.Linking.Placement
import RecordLinkage.Proofs.Linking.Locking
import RecordLinkage.Proofs.Linking.Preparing
import RecordLinkage.Proofs.Linking.Candidates
import RecordLinkage.Proofs.Linking.Pointers
import RecordLinkage.Proofs.Linking.Operations
import RecordLinkage.Proofs.Program.Relays
import RecordLinkage.Proofs.Linking.Joins
import RecordLinkage.Proofs.Linking.Calls
import RecordLinkage.Proofs.Membership.Clock
import RecordLinkage.Proofs.Membership.Changes
import RecordLinkage.Proofs.Membership.Traffic
import RecordLinkage.Proofs.Membership.History
import RecordLinkage.Proofs.Linking.Alone
import RecordLinkage.Proofs.Linking.Passes
import RecordLinkage.Proofs.Linking.Serial
import RecordLinkage.Proofs.Journal.Frames
import RecordLinkage.Proofs.Journal.Recovery
import RecordLinkage.Proofs.Decimal.Finite
import RecordLinkage.Proofs.Decimal.Rounding
import RecordLinkage.Proofs.Decimal.Shortest
import RecordLinkage.Proofs.Json.Strings
import RecordLinkage.Proofs.Json.Trees
import RecordLinkage.Proofs.Text.Digits
import RecordLinkage.Proofs.Time.Rfc3339
import RecordLinkage.Proofs.Json.Forms
import RecordLinkage.Proofs.Store.Changes
import RecordLinkage.Proofs.Store.Accepted
import RecordLinkage.Proofs.Store.Restart
import RecordLinkage.Proofs.Lock.Shares
import RecordLinkage.Proofs.Lock.Progress
import RecordLinkage.Proofs.Linking.Memberships
import RecordLinkage.Proofs.Linking.Failures
import RecordLinkage.Proofs.Linking.Stamps
import RecordLinkage.Proofs.Linking.Writes
import RecordLinkage.Proofs.Feedback.Table
import RecordLinkage.Proofs.Feedback.Duties
import RecordLinkage.Proofs.Feedback.Agreement
import RecordLinkage.Proofs.Feedback.Interleaved
import RecordLinkage.Proofs.Feedback.Coherence
import RecordLinkage.Proofs.Feedback.Verdicts
import RecordLinkage.Proofs.Feedback.Served
import RecordLinkage.Proofs.Linking.Verdicts
import RecordLinkage.Proofs.Lock.Holding
import RecordLinkage.Proofs.Lock.Users
import RecordLinkage.Proofs.Match.Changes
import RecordLinkage.Proofs.Lock.Lookups
import RecordLinkage.Proofs.Lock.Deletions
import RecordLinkage.Proofs.Store.Refused
import RecordLinkage.Proofs.Linking.Shape
import RecordLinkage.Proofs.Membership.Restarts
import RecordLinkage.Proofs.Linking.Companions
import RecordLinkage.Proofs.Linking.Unhindered
import RecordLinkage.Proofs.Linking.Unwiped
import RecordLinkage.Proofs.Linking.Resolves
import RecordLinkage.Proofs.Linking.Histories
import RecordLinkage.Proofs.Linking.Informed
import RecordLinkage.Proofs.Linking.Ledger
import RecordLinkage.Proofs.Match.Stars
import RecordLinkage.Proofs.Linking.Effects
import RecordLinkage.Proofs.Linking.Again
import RecordLinkage.Proofs.Linking.Draining
import RecordLinkage.Proofs.Journal.Checksum
import RecordLinkage.Proofs.Json.Prefixes
import RecordLinkage.Proofs.Json.Rows
import RecordLinkage.Proofs.Store.Damage
import RecordLinkage.Proofs.Store.Lengths
import RecordLinkage.Proofs.Block.Delivery
import RecordLinkage.Proofs.Program.Noted
import RecordLinkage.Proofs.Linking.Blocks
import RecordLinkage.Proofs.Linking.Choice
import RecordLinkage.Proofs.Cluster.Batches
import RecordLinkage.Proofs.Block.Order
import RecordLinkage.Proofs.Block.Threads
import RecordLinkage.Proofs.Membership.LastRows
import RecordLinkage.Proofs.Value.Order
