import RecordLinkage.Match
import RecordLinkage.Feedback
import RecordLinkage.Membership

/-! Changes of the tables. A deletion lists the rows that it removes, so a change says the same to every
reader whatever else was written since it was planned. -/

namespace RecordLinkage

inductive Change where
  | upsertEdges (edges : List ScoredEdge) (writtenAt : Instant)
  | removeEdges (edges : List Edge)
  | upsertFeedback (row : Feedback)
  | removeFeedback (pairs : List EntityPair)
  | appendEntries (entries : List LogEntry)
  | removeEntries (cluster : Id) (entries : List LogEntry)
deriving DecidableEq

namespace Change

def isEmpty : Change → Bool
  | upsertEdges edges _ => edges.isEmpty
  | removeEdges edges => edges.isEmpty
  | upsertFeedback _ => false
  | removeFeedback pairs => pairs.isEmpty
  | appendEntries entries => entries.isEmpty
  | removeEntries _ entries => entries.isEmpty

def kindName : Change → String
  | upsertEdges _ _ => "MatchUpsert"
  | removeEdges _ => "MatchDelete"
  | upsertFeedback _ => "FeedbackUpsert"
  | removeFeedback _ => "FeedbackDelete"
  | appendEntries _ => "LogAppend"
  | removeEntries _ _ => "LogDelete"

open Form

def payload : Change → Json
  | upsertEdges edges writtenAt =>
      Json.ofRecord [("edges", toJson edges), ("written_at", toJson writtenAt)]
  | removeEdges edges => Json.ofRecord [("rows", toJson edges)]
  | upsertFeedback row => toJson row
  | removeFeedback pairs => Json.ofRecord [("pairs", toJson pairs)]
  | appendEntries entries => Json.ofRecord [("entries", toJson entries)]
  | removeEntries cluster entries =>
      Json.ofRecord [("linking_id", toJson cluster), ("entries", toJson entries)]

def soleField? {α : Type} [Form α] (name : String) (json : Json) : Option α := do
  match ← json.record? [name] with
  | [field] => required? field
  | _ => none

def ofPayload? (kind : String) (json : Json) : Option Change :=
  match kind with
  | "MatchUpsert" => do
      match ← json.record? ["edges", "written_at"] with
      | [edges, writtenAt] => return upsertEdges (← required? edges) (← required? writtenAt)
      | _ => none
  | "MatchDelete" => (soleField? "rows" json).map removeEdges
  | "FeedbackUpsert" => (ofJson? json).map upsertFeedback
  | "FeedbackDelete" => (soleField? "pairs" json).map removeFeedback
  | "LogAppend" => (soleField? "entries" json).map appendEntries
  | "LogDelete" => do
      match ← json.record? ["linking_id", "entries"] with
      | [cluster, entries] => return removeEntries (← required? cluster) (← required? entries)
      | _ => none
  | _ => none

end Change

instance : Form Change where
  toJson change := Json.ofRecord [(change.kindName, change.payload)]
  ofJson? json :=
    match json with
    | .object [(kind, payload)] => (Json.readText? kind).bind (Change.ofPayload? · payload)
    | _ => none

end RecordLinkage
