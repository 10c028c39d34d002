import RecordLinkage.Session

/-! Everything that linking left behind, read through the services. -/

namespace RecordLinkage

structure Overview where
  edges : List MatchedEdge
  pointers : List (EntityKey × Option Id)
  feedback : List Feedback

namespace Overview

def pointersOf : List EntityKey → Action (List (EntityKey × Option Id))
  | [] => return []
  | entity :: entities => do
      let cluster ← ClusterGraph.pointer entity
      return (entity, cluster) :: (← pointersOf entities)

def read (entities : List EntityKey) : Action Overview := do
  let edges : List MatchedEdge ← Action.read .allEdges
  let pointers ← pointersOf entities
  return ⟨edges, pointers, ← FeedbackService.all⟩

def memberships : List Id → Action (List (Id × Members))
  | [] => return []
  | id :: ids => do
      let members ← MembershipLog.latest id
      let rest ← memberships ids
      return if members.isEmpty then rest else (id, members) :: rest

end Overview

end RecordLinkage
