import RecordLinkage.Entity

/-! Exclusive locks on entities and clusters. Locks are taken one at a time, entities before clusters
and each in ascending order, so callers with overlapping wishes cannot wait for each other in a
circle. A caller keeps what it took while it waits for the next lock. -/

namespace RecordLinkage

structure LockTable where
  members : EntitySet
  clusters : IdSet

inductive Lock where
  | member (entity : EntityKey)
  | cluster (id : Id)
deriving DecidableEq

inductive LockCall where
  | take (lock : Lock)
  | release (members : EntitySet) (clusters : IdSet)

namespace LockTable

def empty : LockTable := ⟨∅, ∅⟩

def holds (table : LockTable) : Lock → Bool
  | .member entity => table.members.contains entity
  | .cluster id => table.clusters.contains id

def add (table : LockTable) : Lock → LockTable
  | .member entity => { table with members := table.members.insert entity }
  | .cluster id => { table with clusters := table.clusters.insert id }

def take? (table : LockTable) (lock : Lock) : Option LockTable :=
  if table.holds lock then none else some (table.add lock)

def release (table : LockTable) (members : EntitySet) (clusters : IdSet) : LockTable :=
  ⟨table.members.eraseMany members.toList, table.clusters.eraseMany clusters.toList⟩

def answer? (table : LockTable) : LockCall → Option LockTable
  | .take lock => table.take? lock
  | .release members clusters => some (table.release members clusters)

end LockTable

def Lock.sequence (members : EntitySet) (clusters : IdSet) : List Lock :=
  members.toList.map .member ++ clusters.toList.map .cluster

end RecordLinkage
