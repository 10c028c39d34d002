import RecordLinkage.Program

/-! Cluster transactions. A transaction holds the locks on some entities and clusters and collects edges
for the clusters it holds; the edges are written together or dropped together, and the locks are given
back when it ends, however it ends. -/

namespace RecordLinkage

structure Transaction where
  members : EntitySet
  clusters : IdSet
  reserved : Option Id
  staged : List ScoredEdge

def takeLocks : List Lock → Program Unit
  | [] => return ()
  | lock :: locks => do
      Program.perform (.lock (.take lock))
      takeLocks locks

def acquire (members : EntitySet) (clusters : IdSet) : Program Unit :=
  takeLocks (Lock.sequence members clusters)

def releaseLocks (members : EntitySet) (clusters : IdSet) : Program Unit :=
  if members.isEmpty && clusters.isEmpty then return ()
  else Program.perform (.lock (.release members clusters))

namespace Transaction

def holds (transaction : Transaction) (cluster : Id) : Bool :=
  transaction.clusters.contains cluster

def holdsMember (transaction : Transaction) (entity : EntityKey) : Bool :=
  transaction.members.contains entity

def pendingWrites (transaction : Transaction) : Nat := transaction.staged.length

def stage (transaction : Transaction) (cluster : Id) (scores : ScoreMap) :
    Except ValidationError Transaction :=
  if !transaction.holds cluster then .error (.clusterNotLocked cluster)
  else
    let edges := scores.edges cluster
    match edges.find? fun scored => !scored.score.inUnit with
    | some scored => .error (.scoreOutOfRange scored.score)
    | none => .ok { transaction with staged := transaction.staged ++ edges }

def emptied (transaction : Transaction) : Transaction := { transaction with staged := [] }

/-- Writes what was collected; it is no longer collected afterwards, also if the write fails. -/
def flush (transaction : Transaction) : Action Nat :=
  if transaction.staged.isEmpty then return 0
  else do
    let now ← ExceptT.lift (Program.perform .now)
    return (← Action.write (.upsertEdges transaction.staged now)).count

def release (transaction : Transaction) : Program Unit :=
  releaseLocks transaction.members transaction.clusters

def commit (transaction : Transaction) : Action Nat :=
  transaction.flush.thenAlways transaction.release

def rollback (transaction : Transaction) : Program Unit := transaction.release

end Transaction

end RecordLinkage
