import RecordLinkage.Feedback

/-! The feedback table: one verdict for each pair, and for each entity the pairs that it is in. -/

namespace RecordLinkage

structure FeedbackTable where
  rows : Std.ExtTreeMap EntityPair Bool
  byEntity : Std.ExtTreeMap EntityKey PairSet

namespace FeedbackTable

def empty : FeedbackTable := ⟨∅, ∅⟩

def pairsOf (table : FeedbackTable) (entity : EntityKey) : PairSet :=
  table.byEntity.getD entity ∅

def addPair (index : Std.ExtTreeMap EntityKey PairSet) (entity : EntityKey) (pair : EntityPair) :
    Std.ExtTreeMap EntityKey PairSet :=
  index.insert entity ((index.getD entity ∅).insert pair)

def erasePair (index : Std.ExtTreeMap EntityKey PairSet) (entity : EntityKey) (pair : EntityPair) :
    Std.ExtTreeMap EntityKey PairSet :=
  let rest := (index.getD entity ∅).erase pair
  if rest.isEmpty then index.erase entity else index.insert entity rest

def upsert (table : FeedbackTable) (row : Feedback) : FeedbackTable :=
  { rows := table.rows.insert row.pair row.linked
    byEntity :=
      if table.rows.contains row.pair then table.byEntity
      else addPair (addPair table.byEntity row.pair.first row.pair) row.pair.second row.pair }

def get? (table : FeedbackTable) (pair : EntityPair) : Option Feedback :=
  table.rows[pair]?.map fun linked => ⟨pair, linked⟩

def findByEntity (table : FeedbackTable) (entity : EntityKey) (verdict : Verdict) :
    List Feedback :=
  ((table.pairsOf entity).toList.filterMap table.get?).filter fun row =>
    verdict.accepts row.linked

def planSet (table : FeedbackTable) (set : Id) (keys : Option IdSet) : List EntityPair :=
  let chosen (entity : EntityKey) : Bool :=
    entity.set = set && keys.all fun keys => keys.contains entity.key
  (table.byEntity.toList.foldl
    (fun planned (entity, pairs) => if chosen entity then planned.insertMany pairs.toList else planned)
    (∅ : PairSet)).toList

def planEntity (table : FeedbackTable) (entity : EntityKey) : List EntityPair :=
  (table.pairsOf entity).toList

def removeOne (table : FeedbackTable) (pair : EntityPair) : Bool × FeedbackTable :=
  if table.rows.contains pair then
    (true,
      { rows := table.rows.erase pair
        byEntity := erasePair (erasePair table.byEntity pair.first pair) pair.second pair })
  else (false, table)

def remove (table : FeedbackTable) : List EntityPair → List EntityPair × FeedbackTable
  | [] => ([], table)
  | pair :: pairs =>
      let (found, table) := table.removeOne pair
      let (removed, table) := table.remove pairs
      (if found then pair :: removed else removed, table)

def all (table : FeedbackTable) : List Feedback :=
  table.rows.toList.map fun (pair, linked) => ⟨pair, linked⟩

end FeedbackTable

end RecordLinkage
