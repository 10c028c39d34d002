import RecordLinkage.Entity
import RecordLinkage.Error
import RecordLinkage.Value

/-! What the host provides: the search index, the property store, the similarity model and the catalog
of entity sets. -/

namespace RecordLinkage

structure SearchRequest where
  entityType : Id
  sets : IdSet
  fields : Std.ExtTreeMap Id TextSet
  top : Nat
  exact : Bool

abbrev PropertyStream := List (Except LinkError (Id × Properties))

inductive HostCall where
  | search (request : SearchRequest)
  | loadOne (entity : EntityKey)
  | loadMany (set : Id) (keys : IdSet)
  | typeOf (set : Id)
  | setsOf (entityType : Id)
  | score (focal candidate : Properties)

namespace HostCall

abbrev Answer : HostCall → Type
  | search _ => Members
  | loadOne _ => Properties
  | loadMany _ _ => PropertyStream
  | typeOf _ => Option Id
  | setsOf _ => IdSet
  | score _ _ => Double

end HostCall

abbrev Host := (call : HostCall) → Except LinkError call.Answer

end RecordLinkage
