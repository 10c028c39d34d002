import RecordLinkage.Form

/-! The entity index of the host: when each record was written and linked, and the cluster that its link
pointer names. The sign of the version tells whether the record is live. -/

namespace RecordLinkage

structure IndexRecord where
  cluster : Option Id
  lastLink : Option Instant
  lastWrite : Instant
  version : Int64
deriving DecidableEq

namespace IndexRecord

def isLive (record : IndexRecord) : Bool := 0 < record.version

def needsLinking (record : IndexRecord) : Bool :=
  record.lastLink.all fun linked => record.lastWrite.after linked

end IndexRecord

open Form

instance : Form IndexRecord where
  toJson record := Json.ofRecord [
    ("linking_id", ofOption record.cluster),
    ("last_link", ofOption record.lastLink),
    ("last_write", toJson record.lastWrite),
    ("version", toJson record.version)]
  ofJson? json := do
    match ← json.record? ["linking_id", "last_link", "last_write", "version"] with
    | [cluster, lastLink, lastWrite, version] =>
        return ⟨← optional? cluster, ← optional? lastLink, ← required? lastWrite,
          ← required? version⟩
    | _ => none

abbrev Index := Std.ExtTreeMap EntityKey IndexRecord

inductive IndexCall where
  | setCluster (entity : EntityKey) (cluster : Id) (linkedAt : Instant)
  | record (entity : EntityKey)
  | needingLinking (sets : IdSet) (limit : Nat)
  | notLinked (sets : IdSet) (limit : Nat)

namespace IndexCall

abbrev Answer : IndexCall → Type
  | setCluster _ _ _ => Nat
  | record _ => Option IndexRecord
  | needingLinking _ _ => List EntityKey
  | notLinked _ _ => List EntityKey

end IndexCall

namespace Index

def recordWrite (index : Index) (entity : EntityKey) (writtenAt : Instant) : Index :=
  let record : IndexRecord := index.getD entity ⟨none, none, writtenAt, 0⟩
  index.insert entity
    { record with lastWrite := writtenAt, version := record.version.abs + 1 }

def tombstone (index : Index) (entity : EntityKey) : Bool × Index :=
  match index[entity]? with
  | none => (false, index)
  | some record => (true, index.insert entity { record with version := -record.version.abs })

def setCluster (index : Index) (entity : EntityKey) (cluster : Id) (linkedAt : Instant) :
    Nat × Index :=
  match index[entity]? with
  | none => (0, index)
  | some record =>
      (1, index.insert entity { record with cluster := some cluster, lastLink := some linkedAt })

def select (index : Index) (sets : IdSet) (limit : Nat) (test : IndexRecord → Bool) :
    List EntityKey :=
  ((index.toList.filter fun (entity, record) =>
    sets.contains entity.set && record.isLive && test record).map (·.1)).take limit

def answer (index : Index) : (call : IndexCall) → call.Answer × Index
  | .setCluster entity cluster linkedAt => index.setCluster entity cluster linkedAt
  | .record entity => (index[entity]?, index)
  | .needingLinking sets limit => (index.select sets limit IndexRecord.needsLinking, index)
  | .notLinked sets limit => (index.select sets limit fun record => record.cluster.isNone, index)

end Index

end RecordLinkage
