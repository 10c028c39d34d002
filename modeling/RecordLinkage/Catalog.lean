import RecordLinkage.Cache.Fetch

/-! The catalog of entity sets, directly from the host or through caches of its answers. An unknown set is
cached like a known one. -/

namespace RecordLinkage

namespace Catalog

def typeOf (cached : Bool) (set : Id) : Action (Option Id) :=
  if cached then
    Cache.fetch (fun call => Program.perform (.typeCache call)) set (Action.host (.typeOf set))
  else Action.host (.typeOf set)

def setsOf (cached : Bool) (entityType : Id) : Action IdSet :=
  if cached then
    Cache.fetch (fun call => Program.perform (.setsCache call)) entityType
      (Action.host (.setsOf entityType))
  else Action.host (.setsOf entityType)

def invalidate : Program Unit := do
  Program.perform (.typeCache .clear)
  Program.perform (.setsCache .clear)

end Catalog

end RecordLinkage
