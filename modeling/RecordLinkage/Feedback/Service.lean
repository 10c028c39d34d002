import RecordLinkage.Cache.Fetch

/-! The feedback service: a durable table behind a write-through cache. A write goes to the table first
and then to the cache, so a reader of the same cache sees it. The cache also remembers that a pair
has no feedback. -/

namespace RecordLinkage

namespace FeedbackService

def cache (call : CacheCall EntityPair (Option Bool)) : Program call.Answer :=
  Program.perform (.feedbackCache call)

def add (a b : EntityKey) (linked : Bool) : Action Feedback := do
  let row : Feedback := ⟨.of a b, linked⟩
  let _ ← Action.write (.upsertFeedback row)
  ExceptT.lift (cache (.insert row.pair (some linked)))
  return row

def stored (pair : EntityPair) : Action (Option Bool) := do
  let row : Option Feedback ← Action.read (.feedback pair)
  return row.map Feedback.linked

def verdict (pair : EntityPair) : Action (Option Bool) := Cache.fetch cache pair (stored pair)

def get (a b : EntityKey) : Action (Option Feedback) := do
  let pair := EntityPair.of a b
  return (← verdict pair).map (⟨pair, ·⟩)

def hasNegative (a b : EntityKey) : Action Bool := do
  return (← get a b).any fun row => !row.linked

def refresh : List Feedback → Action Unit
  | [] => return ()
  | row :: rows => do
      ExceptT.lift (cache (.insert row.pair (some row.linked)))
      refresh rows

/-- The rows about an entity; they also refresh the cache. -/
def onEntity (verdict : Verdict) (entity : EntityKey) : Action (List Feedback) := do
  let rows : List Feedback ← Action.read (.feedbackOn entity verdict)
  refresh rows
  return rows

def positivePairs (entity : EntityKey) : Action PairSet := do
  return .ofList ((← onEntity .positive entity).map Feedback.pair)

def forget : List EntityPair → Action Unit
  | [] => return ()
  | pair :: pairs => do
      ExceptT.lift (cache (.invalidate pair))
      forget pairs

def delete (request : Write) : Action Nat := do
  let written ← Action.write request
  forget written.removed
  return written.count

def deleteInSet (set : Id) (keys : Option IdSet) : Action Nat :=
  delete (.deleteFeedbackInSet set keys)

def deleteOn (entity : EntityKey) : Action Nat := delete (.deleteFeedbackOn entity)

def all : Action (List Feedback) := Action.read .allFeedback

end FeedbackService

end RecordLinkage
