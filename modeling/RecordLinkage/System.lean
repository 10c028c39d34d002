import RecordLinkage.Program
import RecordLinkage.Store

/-! The state that programs share, and its answer to each call. A call for a lock that is held has no
answer yet; every other call is answered at once. -/

namespace RecordLinkage

/-- The readings of the wall clock and the identifiers that are drawn come from outside, one after the
other; nothing is assumed about them here. -/
structure System where
  store : Store
  index : Index
  locks : LockTable
  feedbackCache : Cache EntityPair (Option Bool)
  typeCache : Cache Id (Option Id)
  setsCache : Cache Id IdSet
  lastTick : Int
  clock : Nat → Instant
  readings : Nat
  ids : Nat → Id
  drawn : Nat
  host : Host

namespace System

def fresh (store : Store) (host : Host) (lifetime : Nat) (clock : Nat → Instant) (ids : Nat → Id) :
    System :=
  ⟨store, ∅, .empty, .empty lifetime, .empty lifetime, .empty lifetime, 0, clock, 0, ids, 0, host⟩

/-- The system after a restart over the given tables: locks, the feedback cache and the log clock start
afresh. The index, and the catalog with its caches, are the host's and stay. -/
def restarted (system : System) (store : Store) : System :=
  { fresh store system.host system.feedbackCache.lifetime system.clock system.ids with
    index := system.index
    typeCache := system.typeCache
    setsCache := system.setsCache
    readings := system.readings
    drawn := system.drawn }

def now (system : System) : Instant := system.clock system.readings

def read (system : System) : System := { system with readings := system.readings + 1 }

def write (system : System) (request : Write) : Except LinkError Written × System :=
  let (written, store) := system.store.write .sound system.now request
  (written.mapError .storage, { system.read with store })

def answer? (system : System) : (call : Call) → Option (call.Answer × System)
  | .host call => some (system.host call, system)
  | .read request => some (.ok (system.store.read request), system)
  | .write request => some (system.write request)
  | .index call =>
      let (answer, index) := system.index.answer call
      some (.ok answer, { system with index })
  | .feedbackCache call =>
      let (answer, feedbackCache) := system.feedbackCache.answer call
      some (answer, { system with feedbackCache })
  | .typeCache call =>
      let (answer, typeCache) := system.typeCache.answer call
      some (answer, { system with typeCache })
  | .setsCache call =>
      let (answer, setsCache) := system.setsCache.answer call
      some (answer, { system with setsCache })
  | .lock call => (system.locks.answer? call).map fun locks => ((), { system with locks })
  | .now => some (system.now, system.read)
  | .tick =>
      let tick := Membership.tick system.lastTick system.now
      some (tick, { system.read with lastTick := tick })
  | .drawId => some (system.ids system.drawn, { system with drawn := system.drawn + 1 })

end System

end RecordLinkage
