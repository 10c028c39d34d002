import RecordLinkage.Proofs.Linking.Joins
import RecordLinkage.Proofs.Linking.Operations

/-! With which time a pass stamps the entities that it links: not that of its start or of what it loaded, but
the one that it reads off the clock right before. -/

namespace RecordLinkage

namespace Call

def Stamps : Call → Prop
  | .index (.setCluster _ _ _) => True
  | _ => False

theorem Stamps.eq {call : Call} (stamps : call.Stamps) :
    ∃ entity cluster linkedAt, call = .index (.setCluster entity cluster linkedAt) := by
  cases call with
  | index request =>
      cases request with
      | setCluster => exact ⟨_, _, _, rfl⟩
      | _ => exact stamps.elim
  | _ => exact stamps.elim

theorem Looks.not_stamps {call : Call} (looks : call.Looks) : ¬call.Stamps := by
  cases call with
  | index request =>
      cases request with
      | setCluster => exact looks.elim
      | _ => exact id
  | _ => exact id

theorem Joins.not_stamps {cluster : Id} {call : Call} (joins : call.Joins cluster []) : ¬call.Stamps := by
  cases call with
  | index request =>
      cases request with
      | setCluster => simp [Joins] at joins
      | _ => exact id
  | _ => exact id

end Call

namespace Linking

def Clocked : Answering (Option Instant) := fun seen call answer after =>
  match call, answer with
  | .now, time => after = some time
  | _, _ => after = seen

def StampsSeen (seen : Option Instant) : Call → Prop
  | .index (.setCluster _ _ linkedAt) => seen = some linkedAt
  | _ => True

theorem stampsSeen_of_not_stamps {seen : Option Instant} {call : Call} (other : ¬call.Stamps) :
    StampsSeen seen call := by
  unfold StampsSeen
  split
  · exact absurd trivial other
  · trivial

end Linking

namespace Action

variable {α β : Type}

abbrev Stamps (action : Action α) : Prop :=
  ∀ seen, action.Ensures Linking.Clocked Linking.StampsSeen (fun _ _ => True) (fun _ _ => True) seen

theorem stamps_pure (value : α) : (pure value : Action α).Stamps := fun _ => trivial

theorem stamps_bind {action : Action α} {rest : α → Action β} (first : action.Stamps)
    (then' : ∀ value, (rest value).Stamps) : (action >>= rest).Stamps :=
  fun seen => (ensures_bind _ _ _).mpr ((first seen).mono fun value after _ => then' value after)

theorem stamps_of_asks {post : α → Prop} {action : Action α}
    (asks : action.Asks True (fun call => ¬call.Stamps) post) : action.Stamps := by
  intro seen
  have stamps : action.Ensures Linking.Clocked Linking.StampsSeen (fun _ _ => True) _ seen :=
    asks.ensures (fun _ => True) trivial (fun _ _ _ => Linking.stampsSeen_of_not_stamps) fun _ _ _ _ _ _ _ => trivial
  exact stamps.mono fun _ _ _ => trivial

theorem stamps_of_relays {cluster : Id} {action : Action α} (relays : action.Relays (Call.Joins cluster [])) :
    action.Stamps :=
  stamps_of_asks ((asks_of_relays relays).allow fun _ => Call.Joins.not_stamps)

theorem stamps_setPointer (cluster : Id) (entity : EntityKey) :
    (ClusterGraph.setPointer cluster entity).Stamps := by
  refine fun seen => (ensures_bind _ _ _).mpr ((ensures_lift _ _).mpr ⟨trivial, ?_⟩)
  rintro time _ rfl
  refine ⟨rfl, ?_⟩
  intro answer _ _
  cases answer <;> trivial

theorem stamps_move (cluster : Id) (entity : EntityKey) (before : Option Id) :
    (Linking.move cluster entity before).Stamps := by
  refine stamps_bind (stamps_setPointer cluster entity) fun _ => ?_
  cases before with
  | none => exact stamps_pure _
  | some previous =>
      dsimp only
      split
      · exact stamps_bind (stamps_of_relays (@relays_leave cluster [] _ _)) fun _ => stamps_pure _
      · exact stamps_pure _

theorem stamps_moveAll (focal : EntityKey) (previous : Option Id) (cluster : Id) (entities : List EntityKey) :
    (Linking.moveAll focal previous cluster entities).Stamps := by
  induction entities with
  | nil => exact stamps_pure _
  | cons entity entities ih =>
      have moves : ∀ before, Action.Stamps (do
          Linking.move cluster entity before
          Linking.moveAll focal previous cluster entities) :=
        fun before => stamps_bind (stamps_move cluster entity before) fun _ => ih
      unfold Linking.moveAll
      split
      · exact moves previous
      · exact stamps_bind (stamps_of_asks (asks_pointer id)) moves

theorem stamps_place (transaction : Transaction) (focal : EntityKey) (scored : Scored) (positive : PairSet) :
    (Linking.place transaction focal scored positive).Stamps := by
  have reads : ∀ request, ¬(Call.read request).Stamps := fun _ => id
  unfold Linking.place
  refine stamps_bind (stamps_of_asks (asks_pointer id)) fun previous => ?_
  refine stamps_bind (stamps_of_asks (asks_deleteNeighborhoodIn reads id _)) fun _ => ?_
  refine stamps_bind (stamps_of_asks (asks_clustersContaining reads _)) fun ids => ?_
  refine stamps_bind (stamps_of_asks (asks_clusters reads ids)) fun snapshot => ?_
  refine stamps_bind (stamps_of_asks (asks_choose _ _ _ _)) fun chosen => ?_
  dsimp only
  split
  · exact fun _ => (ensures_throw _ _).mpr trivial
  · refine stamps_bind (stamps_of_asks (asks_flush id fun _ => id)) fun _ => ?_
    refine stamps_bind (stamps_moveAll _ _ _ _) fun _ => ?_
    exact stamps_bind (stamps_of_relays (relays_join chosen.1 [] _)) fun _ => stamps_pure _

theorem stamps_settle (prepared : Prepared) (transaction : Transaction) :
    (prepared.settle transaction).Stamps := by
  intro seen
  rw [prepared.settle_eq]
  refine (ensures_thenAlways _ _ _).mpr (Program.Ensures.mono (stamps_place transaction _ _ _ seen) ?_)
  intro result after holds
  refine (transaction.ensures_release trivial fun _ _ same => same).mono ?_
  rintro _ _ rfl
  exact holds

/-- A pass stamps each entity with the time that it read off the clock last. -/
theorem stamps_link (linker : Linker) (focal : EntityKey) : (linker.link focal).Stamps := by
  rw [linker.link_eq]
  have looks : (linker.prepare focal).Looks True Linking.Found := linker.looks_prepare focal
  refine stamps_bind (stamps_of_asks (looks.allow fun _ => Call.Looks.not_stamps)) ?_
  rintro (outcome | prepared)
  · exact stamps_pure _
  · have finds := @asks_clustersContaining (fun call => ¬call.Stamps) (fun _ => id) prepared.members
    exact stamps_bind (stamps_of_asks (asks_lockStable prepared.members (fun _ => id) (fun _ => id) finds))
      (stamps_settle prepared)

end Action

end RecordLinkage
