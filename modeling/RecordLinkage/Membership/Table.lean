import RecordLinkage.Membership

/-! The table of membership rows, for each cluster in the order of their appending. -/

namespace RecordLinkage

structure LogTable where
  rows : Std.ExtTreeMap Id (List LogEntry)

namespace LogTable

def empty : LogTable := ⟨∅⟩

def entriesFor (table : LogTable) (cluster : Id) : List LogEntry := table.rows.getD cluster []

def append (table : LogTable) (entries : List LogEntry) : LogTable :=
  entries.foldl
    (fun table entry => ⟨table.rows.insert entry.cluster (table.entriesFor entry.cluster ++ [entry])⟩)
    table

def planSet (table : LogTable) (cluster set : Id) : List LogEntry :=
  (table.entriesFor cluster).filter fun entry => entry.entity.set = set

def planMembers (table : LogTable) (cluster : Id) (members : Members) : List LogEntry :=
  (table.entriesFor cluster).filter fun entry => members.has entry.entity

def remove (table : LogTable) (cluster : Id) (planned : List LogEntry) : Nat × LogTable :=
  let entries := table.entriesFor cluster
  let rest := entries.filter fun entry => !planned.contains entry
  (entries.length - rest.length,
    ⟨if rest.isEmpty then table.rows.erase cluster else table.rows.insert cluster rest⟩)

end LogTable

end RecordLinkage
