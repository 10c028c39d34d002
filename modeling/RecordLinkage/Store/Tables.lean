import RecordLinkage.Feedback.Table
import RecordLinkage.Match.Table
import RecordLinkage.Membership.Table
import RecordLinkage.Store.Change

/-! The three tables and what is asked of them. Every write is first planned as a change, which names
the rows concerned, and then applied. -/

namespace RecordLinkage

inductive Read where
  | clustersContaining (entities : EntitySet)
  | loadClusters (clusters : IdSet)
  | allEdges
  | feedback (pair : EntityPair)
  | feedbackOn (entity : EntityKey) (verdict : Verdict)
  | allFeedback
  | entriesFor (cluster : Id)

namespace Read

abbrev Answer : Read → Type
  | clustersContaining _ => IdSet
  | loadClusters _ => Std.ExtTreeMap Id ScoreMap
  | allEdges => List MatchedEdge
  | feedback _ => Option Feedback
  | feedbackOn _ _ => List Feedback
  | allFeedback => List Feedback
  | entriesFor _ => List LogEntry

end Read

inductive Write where
  | upsertEdges (edges : List ScoredEdge) (writtenAt : Instant)
  | deleteEdge (link : Link)
  | deleteTouching (entity : EntityKey) (kept : PairSet)
  | deleteTouchingKeys (set : Id) (keys : IdSet)
  | deleteTouchingSet (set : Id)
  | upsertFeedback (row : Feedback)
  | deleteFeedbackInSet (set : Id) (keys : Option IdSet)
  | deleteFeedbackOn (entity : EntityKey)
  | appendEntries (entries : List LogEntry)
  | deleteEntriesInSet (cluster set : Id)
  | deleteEntriesOf (cluster : Id) (members : Members)

inductive Written where
  | rows (count : Nat)
  | pairs (removed : List EntityPair)
deriving DecidableEq

namespace Written

def count : Written → Nat
  | rows count => count
  | pairs removed => removed.length

def removed : Written → List EntityPair
  | rows _ => []
  | pairs removed => removed

end Written

structure Tables where
  matched : MatchTable
  feedback : FeedbackTable
  log : LogTable

namespace Tables

def empty : Tables := ⟨.empty, .empty, .empty⟩

def read (tables : Tables) : (request : Read) → request.Answer
  | .clustersContaining entities => tables.matched.clustersContaining entities
  | .loadClusters clusters => tables.matched.load clusters
  | .allEdges => tables.matched.all
  | .feedback pair => tables.feedback.get? pair
  | .feedbackOn entity verdict => tables.feedback.findByEntity entity verdict
  | .allFeedback => tables.feedback.all
  | .entriesFor cluster => tables.log.entriesFor cluster

def plan (tables : Tables) : Write → Change
  | .upsertEdges edges writtenAt => .upsertEdges edges writtenAt
  | .deleteEdge link => .removeEdges (tables.matched.planEdge link)
  | .deleteTouching entity kept => .removeEdges (tables.matched.planTouching entity kept)
  | .deleteTouchingKeys set keys => .removeEdges
      (tables.matched.planTouchingWhere fun entity => entity.set = set && keys.contains entity.key)
  | .deleteTouchingSet set => .removeEdges
      (tables.matched.planTouchingWhere fun entity => entity.set = set)
  | .upsertFeedback row => .upsertFeedback row
  | .deleteFeedbackInSet set keys => .removeFeedback (tables.feedback.planSet set keys)
  | .deleteFeedbackOn entity => .removeFeedback (tables.feedback.planEntity entity)
  | .appendEntries entries => .appendEntries entries
  | .deleteEntriesInSet cluster set => .removeEntries cluster (tables.log.planSet cluster set)
  | .deleteEntriesOf cluster members =>
      .removeEntries cluster (tables.log.planMembers cluster members)

def apply (tables : Tables) : Change → Written × Tables
  | .upsertEdges edges writtenAt =>
      (.rows edges.length, { tables with matched := tables.matched.upsert edges writtenAt })
  | .removeEdges edges =>
      let (count, matched) := tables.matched.remove edges
      (.rows count, { tables with matched })
  | .upsertFeedback row => (.rows 1, { tables with feedback := tables.feedback.upsert row })
  | .removeFeedback pairs =>
      let (removed, feedback) := tables.feedback.remove pairs
      (.pairs removed, { tables with feedback })
  | .appendEntries entries =>
      (.rows entries.length, { tables with log := tables.log.append entries })
  | .removeEntries cluster entries =>
      let (count, log) := tables.log.remove cluster entries
      (.rows count, { tables with log })

def write (tables : Tables) (request : Write) : Written × Tables :=
  tables.apply (tables.plan request)

def replay (tables : Tables) (changes : List Change) : Tables :=
  changes.foldl (fun tables change => (tables.apply change).2) tables

end Tables

end RecordLinkage
