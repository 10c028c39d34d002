import RecordLinkage.Cluster.Transaction

/-! The cluster graph. Reads are snapshots without locks. Whoever is going to write locks entities and
the clusters that they are in; as those are looked up before they are locked, the look-up is repeated
under the locks, and if it finds another cluster then the locking starts over. -/

namespace RecordLinkage

namespace ClusterGraph

def lockClusters (clusters : IdSet) : Program Transaction := do
  acquire ∅ clusters
  return ⟨∅, clusters, none, []⟩

def maxLockAttempts : Nat := 8

def reserveId (reserve : Bool) : Program (Option Id) :=
  if reserve then do return some (← Program.perform .drawId)
  else return none

def tryLock (members : EntitySet) (reserve : Bool) (find : Action IdSet) :
    Action (Option Transaction) := do
  let found ← find
  let reserved ← ExceptT.lift (reserveId reserve)
  let transaction : Transaction := ⟨members, found.insertMany reserved.toList, reserved, []⟩
  ExceptT.lift (acquire transaction.members transaction.clusters)
  let again ← find.onFailure transaction.rollback
  if again.toList.all found.contains then return some transaction
  else do
    ExceptT.lift transaction.rollback
    return none

def lockWithin : Nat → EntitySet → Bool → Action IdSet → Action Transaction
  | 0, _, _, _ => throw (.execution (.lockContention maxLockAttempts))
  | attempts + 1, members, reserve, find => do
      match ← tryLock members reserve find with
      | some transaction => return transaction
      | none => lockWithin attempts members reserve find

/-- Locks the members and the clusters that `find` finds, and a fresh identifier if one is to be
reserved. -/
def lockStable (members : EntitySet) (reserve : Bool) (find : Action IdSet) :
    Action Transaction :=
  lockWithin maxLockAttempts members reserve find

def clustersContaining (entities : EntitySet) : Action IdSet :=
  if entities.isEmpty then return ∅
  else Action.read (.clustersContaining entities)

def clusters (ids : IdSet) : Action (Std.ExtTreeMap Id ScoreMap) :=
  if ids.isEmpty then return ∅
  else Action.read (.loadClusters ids)

def lockMembers (members : EntitySet) : Action Transaction :=
  lockStable members true (clustersContaining members)

def setPointer (cluster : Id) (member : EntityKey) : Action Nat := do
  let now ← ExceptT.lift (Program.perform .now)
  Action.index (.setCluster member cluster now)

def pointer (member : EntityKey) : Action (Option Id) := do
  let record : Option IndexRecord ← Action.index (.record member)
  return record.bind IndexRecord.cluster

def deleteHolding (transaction : Transaction) (deletion : Action Nat) : Action Nat := do
  let rows ← deletion.onFailure transaction.rollback
  let _ ← transaction.commit
  return rows

def deleteRows (request : Write) : Action Nat := do
  return (← Action.write request).count

def deleteEdge (link : Link) : Action Nat := do
  let members : EntitySet := .ofList [link.src, link.dst]
  let transaction ← lockStable members false (clustersContaining members)
  deleteHolding transaction (deleteRows (.deleteEdge link))

/-- Deletes the edges that touch an entity, except those between a kept pair, under a transaction that
holds the entity and its clusters. The deletion is done at once and for good. -/
def deleteNeighborhoodIn (transaction : Transaction) (entity : EntityKey) (kept : PairSet) :
    Action Nat := do
  if !transaction.holdsMember entity then throw (.validation (.memberNotLocked entity))
  let touched ← clustersContaining (.ofList [entity])
  match touched.toList.find? fun id => !transaction.holds id with
  | some id => throw (.validation (.clusterNotLocked id))
  | none => deleteRows (.deleteTouching entity kept)

def deleteNeighborhood (entity : EntityKey) (kept : PairSet) : Action Nat := do
  let members : EntitySet := .ofList [entity]
  let transaction ← lockStable members false (clustersContaining members)
  deleteHolding transaction (deleteNeighborhoodIn transaction entity kept)

def deleteNeighborhoods (set : Id) (keys : IdSet) : Action Nat :=
  if keys.isEmpty then return 0
  else do
    let members : EntitySet := .ofList (keys.toList.map fun key => (⟨set, key⟩ : EntityKey))
    let transaction ← lockStable members false (clustersContaining members)
    deleteHolding transaction (deleteRows (.deleteTouchingKeys set keys))

def clustersTouchingSet (set : Id) : Action IdSet := do
  let edges : List MatchedEdge ← Action.read .allEdges
  let touching := edges.filter fun row =>
    row.edge.link.src.set = set || row.edge.link.dst.set = set
  return .ofList (touching.map fun row => row.edge.cluster)

/-- Deletes the edges that touch any entity of a set. The entities are not known beforehand and are not
locked. -/
def deleteSet (set : Id) : Action Nat := do
  let transaction ← lockStable ∅ false (clustersTouchingSet set)
  deleteHolding transaction (deleteRows (.deleteTouchingSet set))

def totals (edges : List MatchedEdge) : Std.ExtTreeMap Id (Double × Nat) :=
  edges.foldl
    (fun totals row =>
      let (sum, count) := totals.getD row.edge.cluster (.zero, 0)
      totals.insert row.edge.cluster (sum.add row.row.score, count + 1))
    ∅

def worseOrEqual (a b : ClusterSummary) : Bool :=
  ((compare a.averageScore b.averageScore).then (compare a.cluster b.cluster)).isLE

def byAverageScore : Action (List ClusterSummary) := do
  let edges : List MatchedEdge ← Action.read .allEdges
  let summaries := (totals edges).toList.map fun (cluster, sum, count) =>
    (⟨cluster, sum.div (.ofNat count), count⟩ : ClusterSummary)
  return summaries.mergeSort worseOrEqual

def largerOrEqual (a b : BlockSize) : Bool :=
  ((compare b.size a.size).then (compare a.entity b.entity)).isLE

def orderedBlocks : Action (List BlockSize) := do
  let edges : List MatchedEdge ← Action.read .allEdges
  let counts := edges.foldl
    (fun counts row => counts.insert row.edge.link.src (counts.getD row.edge.link.src 0 + 1))
    (∅ : Std.ExtTreeMap EntityKey Nat)
  let blocks := counts.toList.map fun (entity, size) => (⟨entity, size⟩ : BlockSize)
  return blocks.mergeSort largerOrEqual

def setPointers (cluster : Id) : List EntityKey → Action Nat
  | [] => return 0
  | member :: members => do
      let rows ← setPointer cluster member
      return rows + (← setPointers cluster members)

def fill (cluster : Id) (scores : ScoreMap) : Action (Nat × Nat) := do
  let transaction ← ExceptT.lift (lockClusters (.ofList [cluster]))
  match transaction.stage cluster scores with
  | .error error =>
      ExceptT.lift transaction.rollback
      throw (.validation error)
  | .ok transaction =>
      let edges ← transaction.commit
      return (edges, ← setPointers cluster scores.members.toList)

def needingLinking (sets : IdSet) (limit : Nat) : Action (List EntityKey) :=
  Action.index (.needingLinking sets limit)

def notLinked (sets : IdSet) (limit : Nat) : Action (List EntityKey) :=
  Action.index (.notLinked sets limit)

end ClusterGraph

end RecordLinkage
