import RecordLinkage.Form

/-! The membership log. A row says that an entity joined a cluster, or with a negative stamp that it
left, at a time in microseconds. Membership at any instant is a fold over the rows in the order
of their times; of two rows of one time the departure counts. -/

namespace RecordLinkage

structure LogEntry where
  cluster : Id
  entity : EntityKey
  stamp : Int64
deriving DecidableEq

namespace LogEntry

def isDeparture (entry : LogEntry) : Bool := entry.stamp < 0

/-- The time without its sign; the least 64-bit number has no counterpart and stands for itself. -/
def micros (entry : LogEntry) : Int := entry.stamp.abs.toInt

def before (a b : LogEntry) : Bool :=
  a.micros < b.micros || a.micros = b.micros && (!a.isDeparture || b.isDeparture)

end LogEntry

open Form

instance : Form LogEntry where
  toJson entry := Json.ofRecord [
    ("linking_id", toJson entry.cluster),
    ("entity_set_id", toJson entry.entity.set),
    ("entity_key_id", toJson entry.entity.key),
    ("ts", toJson entry.stamp)]
  ofJson? json := do
    match ← json.record? ["linking_id", "entity_set_id", "entity_key_id", "ts"] with
    | [cluster, set, key, stamp] =>
        return ⟨← required? cluster, ⟨← required? set, ← required? key⟩, ← required? stamp⟩
    | _ => none

namespace Membership

def presence (entries : List LogEntry) (asOf : Int) : Std.ExtTreeMap EntityKey Bool :=
  ((entries.filter fun entry => entry.micros ≤ asOf).mergeSort LogEntry.before).foldl
    (fun presence entry => presence.insert entry.entity (!entry.isDeparture)) ∅

def fold (entries : List LogEntry) (asOf : Int) : Members :=
  (presence entries asOf).toList.foldl
    (fun members (entity, present) => if present then Members.add members entity else members) ∅

def latest : Int := 2 ^ 63 - 1

def entries (cluster : Id) (members : Members) (stamp : Int64) : List LogEntry :=
  members.entities.map (⟨cluster, ·, stamp⟩)

/-- The next tick of a log clock: the wall clock if it moved on since the last tick, else one more
microsecond. Ticks start at one. -/
def tick (last : Int) (now : Instant) : Int := max (max now.micros 1) (last + 1)

end Membership

end RecordLinkage
