import RecordLinkage.Linking
import RecordLinkage.Proofs.Program.Relays

/-! What a pass does once its edges are written: it points the entities that join at their cluster and
records that they left another one and joined. It makes no other calls, and fails only with one of them. -/

namespace RecordLinkage

def Call.Joins (cluster : Id) (entities : List EntityKey) : Call → Prop
  | .index (.setCluster entity id _) => entity ∈ entities ∧ id = cluster
  | .index (.record _) | .write (.appendEntries _) | .now | .tick => True
  | _ => False

theorem Call.Joins.mono {cluster : Id} {entities wider : List EntityKey}
    (more : ∀ entity ∈ entities, entity ∈ wider)
    (call : Call) (joins : call.Joins cluster entities) : call.Joins cluster wider := by
  cases call with
  | index request =>
      cases request with
      | setCluster => exact ⟨more _ joins.1, joins.2⟩
      | _ => exact joins
  | write request => cases request <;> exact joins
  | _ => exact joins

namespace Action

variable {cluster : Id} {entities : List EntityKey}

theorem relays_pointer {allowed : Call → Prop} {entity : EntityKey} (fits : allowed (.index (.record entity))) :
    (ClusterGraph.pointer entity).Relays allowed :=
  relays_bind (relays_index fits) fun _ => relays_pure _

theorem relays_record (id : Id) (members : Members) (stamp : Int) :
    (MembershipLog.record id members stamp).Relays (Call.Joins cluster entities) := by
  unfold MembershipLog.record
  split
  · exact relays_pure _
  · exact relays_bind (relays_write trivial) fun _ => relays_pure _

theorem relays_join (cluster : Id) (entities : List EntityKey) (members : Members) :
    (MembershipLog.join cluster members).Relays (Call.Joins cluster entities) :=
  relays_bind (relays_lift trivial) fun _ => relays_record _ _ _

theorem relays_leave (id : Id) (members : Members) :
    (MembershipLog.leave id members).Relays (Call.Joins cluster entities) :=
  relays_bind (relays_lift trivial) fun _ => relays_record _ _ _

theorem relays_move {entity : EntityKey} (listed : entity ∈ entities) (before : Option Id) :
    (Linking.move cluster entity before).Relays (Call.Joins cluster entities) := by
  have points : (ClusterGraph.setPointer cluster entity).Relays (Call.Joins cluster entities) :=
    relays_bind (relays_lift trivial) fun _ => relays_index ⟨listed, rfl⟩
  refine relays_bind points fun _ => ?_
  cases before with
  | none => exact relays_pure _
  | some previous =>
      dsimp only
      split
      · exact relays_bind (relays_leave _ _) fun _ => relays_pure _
      · exact relays_pure _

theorem relays_moveAll (focal : EntityKey) (previous : Option Id) (cluster : Id) (entities : List EntityKey) :
    (Linking.moveAll focal previous cluster entities).Relays (Call.Joins cluster entities) := by
  induction entities with
  | nil => exact relays_pure _
  | cons entity entities ih =>
      have later := ih.allow (Call.Joins.mono fun _ => List.mem_cons_of_mem entity)
      have moves : ∀ before, Action.Relays (Call.Joins cluster (entity :: entities)) (do
          Linking.move cluster entity before
          Linking.moveAll focal previous cluster entities) :=
        fun before => relays_bind (relays_move (.head _) before) fun _ => later
      unfold Linking.moveAll
      split
      · exact relays_bind (relays_pure _) moves
      · exact relays_bind (relays_pointer trivial) moves

end Action

end RecordLinkage
