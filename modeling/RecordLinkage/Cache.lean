import Std.Data.ExtTreeMap

/-! A write-through cache in front of a durable table. Every write counts, and a loaded value lands
only if no write came between the start of the load and its end, so a slow load never hides a newer
value. A cache with no lifetime holds nothing. -/

namespace RecordLinkage

/-- The count of writes is taken to stay below `2 ^ 64`, where a counter of 64 bits would start anew. -/
structure Cache (κ ν : Type) [Ord κ] where
  lifetime : Nat
  entries : Std.ExtTreeMap κ ν
  writes : Nat

inductive CacheCall (κ ν : Type) where
  | find (key : κ)
  | countWrites
  | land (key : κ) (value : ν) (seen : Nat)
  | insert (key : κ) (value : ν)
  | invalidate (key : κ)
  | clear

namespace CacheCall

abbrev Answer {κ ν : Type} : CacheCall κ ν → Type
  | find _ => Option ν
  | countWrites => Nat
  | land _ _ _ => Unit
  | insert _ _ => Unit
  | invalidate _ => Unit
  | clear => Unit

end CacheCall

namespace Cache

variable {κ ν : Type} [Ord κ]

def empty (lifetime : Nat) : Cache κ ν := ⟨lifetime, ∅, 0⟩

variable [Std.TransOrd κ]

def find? (cache : Cache κ ν) (key : κ) : Option ν := cache.entries[key]?

def size (cache : Cache κ ν) : Nat := cache.entries.size

def isEmpty (cache : Cache κ ν) : Bool := cache.entries.isEmpty

def put (cache : Cache κ ν) (key : κ) (value : ν) : Cache κ ν :=
  if cache.lifetime = 0 then cache
  else { cache with entries := cache.entries.insert key value }

/-- An entry may vanish at any time; that is no write. -/
def evict (cache : Cache κ ν) (key : κ) : Cache κ ν :=
  { cache with entries := cache.entries.erase key }

def insert (cache : Cache κ ν) (key : κ) (value : ν) : Cache κ ν :=
  { cache.put key value with writes := cache.writes + 1 }

def invalidate (cache : Cache κ ν) (key : κ) : Cache κ ν :=
  { cache.evict key with writes := cache.writes + 1 }

def clear (cache : Cache κ ν) : Cache κ ν :=
  { cache with entries := ∅, writes := cache.writes + 1 }

def land (cache : Cache κ ν) (key : κ) (value : ν) (seen : Nat) : Cache κ ν :=
  if cache.writes = seen then cache.put key value else cache

def load {ε : Type} (cache : Cache κ ν) (key : κ)
    (loader : Cache κ ν → Except ε ν × Cache κ ν) : Except ε (ν × Bool) × Cache κ ν :=
  match cache.find? key with
  | some value => (.ok (value, false), cache)
  | none =>
      match loader cache with
      | (.ok value, loaded) => (.ok (value, true), loaded.land key value cache.writes)
      | (.error error, loaded) => (.error error, loaded)

def answer (cache : Cache κ ν) : (call : CacheCall κ ν) → call.Answer × Cache κ ν
  | .find key => (cache.find? key, cache)
  | .countWrites => (cache.writes, cache)
  | .land key value seen => ((), cache.land key value seen)
  | .insert key value => ((), cache.insert key value)
  | .invalidate key => ((), cache.invalidate key)
  | .clear => ((), cache.clear)

end Cache

end RecordLinkage
