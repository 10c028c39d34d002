import RecordLinkage.Block
import RecordLinkage.Cluster.Graph
import RecordLinkage.Membership.Log

/-! Linking one entity: its block is scored, it joins the best cluster of its matches or starts one, and
the change of membership is recorded. Every edge that touches a linked entity lies in the cluster that
its link pointer names. A pass keeps that so by holding the focal entity, its matches and their
clusters from the removal of the old edges until the log is written, and by writing no edge to a match
that belongs to another cluster. -/

namespace RecordLinkage

abbrev Scored := Std.ExtTreeMap EntityKey Double

structure LinkOutcome where
  focal : EntityKey
  cluster : Option Id
  previous : Option Id
  matched : Scored
  deferred : EntitySet
  newCluster : Bool
  edgesWritten : Nat

namespace LinkOutcome

def skipped (focal : EntityKey) (previous : Option Id) : LinkOutcome :=
  ⟨focal, none, previous, ∅, ∅, false, 0⟩

def isSkipped (outcome : LinkOutcome) : Bool := outcome.cluster.isNone

def moved (outcome : LinkOutcome) : Bool :=
  match outcome.previous, outcome.cluster with
  | some previous, some now => previous ≠ now
  | _, _ => false

end LinkOutcome

structure Linker where
  config : LinkingConfig
  cachesCatalog : Bool

namespace Linking

def score (focal : EntityKey) (properties : Properties) (positive : PairSet)
    (candidate : EntityKey × Properties) : Action Double :=
  if positive.contains (.of focal candidate.1) then return .one
  else Action.host (.score properties candidate.2)

def scoreAll (focal : EntityKey) (properties : Properties) (positive : PairSet)
    (minimum : Double) : List (EntityKey × Properties) → Scored → Action Scored
  | [], scored => return scored
  | candidate :: candidates, scored => do
      if candidate.1 = focal then
        scoreAll focal properties positive minimum candidates scored
      else
        let score ← score focal properties positive candidate
        if !score.inUnit then throw (.validation (.scoreOutOfRange score))
        else if minimum.le score then
          scoreAll focal properties positive minimum candidates (scored.insert candidate.1 score)
        else scoreAll focal properties positive minimum candidates scored

def scoreBlock (block : Block) (positive : PairSet) (minimum : Double) : Action Scored :=
  match block.focalProperties? with
  | none => throw (.internal ("block for " ++ block.focal.text ++ " does not contain it"))
  | some properties =>
      scoreAll block.focal properties positive minimum block.candidates.toList
        (.ofList [(block.focal, Double.one)])

/-- The mean score of a cluster's members without the focal entity; those that are not accepted count
zero. -/
def meanScore (focal : EntityKey) (scored : Scored) (members : EntitySet) : Double :=
  let others := members.toList.filter fun entity => entity ≠ focal
  if others.isEmpty then scored.getD focal .zero
  else
    let sum := others.foldl (fun sum entity => sum.add (scored.getD entity .zero)) Double.zero
    sum.div (.ofNat others.length)

/-- The first of the clusters whose mean no other one exceeds. -/
def bestCluster (focal : EntityKey) (scored : Scored) (clusters : List (Id × ScoreMap)) :
    Option Id :=
  let best := clusters.foldl
    (fun (best : Option (Id × Double)) (id, scores) =>
      let mean := meanScore focal scored scores.members
      match best with
      | none => some (id, mean)
      | some (_, highest) => if highest.lt mean then some (id, mean) else best)
    none
  best.map (·.1)

abbrev Snapshot := Std.ExtTreeMap Id ScoreMap

namespace Snapshot

/-- The clusters to choose from: those the focal entity is still in, if there are any. -/
def choices (snapshot : Snapshot) (focal : EntityKey) : List (Id × ScoreMap) :=
  let home := snapshot.toList.filter fun (_, scores) => scores.members.contains focal
  if home.isEmpty then snapshot.toList else home

def clustered (snapshot : Snapshot) : EntitySet :=
  snapshot.toList.foldl (fun entities (_, scores) => entities.insertMany scores.members.toList) ∅

def membersOf (snapshot : Snapshot) (cluster : Id) : EntitySet :=
  (snapshot.getD cluster ∅).members

/-- Whether an accepted entity may be linked in the chosen cluster; the others stay where they are. -/
def admits (snapshot : Snapshot) (focal : EntityKey) (cluster : Id) (entity : EntityKey) : Bool :=
  entity = focal || (snapshot.membersOf cluster).contains entity ||
    !snapshot.clustered.contains entity

end Snapshot

def move (cluster : Id) (entity : EntityKey) (before : Option Id) : Action Unit := do
  let _ ← ClusterGraph.setPointer cluster entity
  match before with
  | some previous =>
      if previous ≠ cluster then
        let _ ← MembershipLog.leave previous (.single entity)
  | none => return ()

def moveAll (focal : EntityKey) (previous : Option Id) (cluster : Id) :
    List EntityKey → Action Unit
  | [] => return ()
  | entity :: entities => do
      let before ← if entity = focal then pure previous else ClusterGraph.pointer entity
      move cluster entity before
      moveAll focal previous cluster entities

def choose (transaction : Transaction) (focal : EntityKey) (scored : Scored)
    (snapshot : Snapshot) : Action (Id × Bool) :=
  match bestCluster focal scored (snapshot.choices focal) with
  | some id => return (id, false)
  | none =>
      match transaction.reserved with
      | some id => return (id, true)
      | none => throw (.internal "linking transaction reserved no cluster id")

/-- The part of a pass that runs under its locks; the edges are written when it returns. -/
def place (transaction : Transaction) (focal : EntityKey) (scored : Scored)
    (positive : PairSet) : Action LinkOutcome := do
  let previous ← ClusterGraph.pointer focal
  let _ ← ClusterGraph.deleteNeighborhoodIn transaction focal positive
  let ids ← ClusterGraph.clustersContaining (.ofList scored.keys)
  let snapshot : Snapshot ← ClusterGraph.clusters ids
  let (cluster, newCluster) ← choose transaction focal scored snapshot
  let matched := scored.filter fun entity _ => snapshot.admits focal cluster entity
  let deferred := scored.keys.filter fun entity => !snapshot.admits focal cluster entity
  match transaction.stage cluster (.symmetric focal matched) with
  | .error error => throw (.validation error)
  | .ok transaction =>
      let edgesWritten ← transaction.flush
      let joining := matched.keys.filter fun entity =>
        entity = focal || !snapshot.clustered.contains entity
      moveAll focal previous cluster joining
      let _ ← MembershipLog.join cluster (.ofEntities joining)
      return ⟨focal, some cluster, previous, matched, .ofList deferred, newCluster, edgesWritten⟩

end Linking

namespace Linker

def block (linker : Linker) (focal : EntityKey) : Action Block :=
  Block.build linker.config.blocking linker.cachesCatalog focal linker.config.blocking.top

def link (linker : Linker) (focal : EntityKey) : Action LinkOutcome := do
  let block ← linker.block focal
  if block.isEmpty then return .skipped focal (← ClusterGraph.pointer focal)
  else
    let positive ← FeedbackService.positivePairs focal
    let scored ← Linking.scoreBlock block positive linker.config.minMatchScore
    let transaction ← ClusterGraph.lockMembers (.ofList scored.keys)
    let outcome ← (Linking.place transaction focal scored positive).onFailure transaction.rollback
    let _ ← transaction.emptied.commit
    return outcome

end Linker

end RecordLinkage
