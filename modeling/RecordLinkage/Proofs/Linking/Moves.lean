import RecordLinkage.Proofs.Linking.Footprint

/-! What moving entities to a cluster does: every known one is pointed at it, and the log has it leave the
cluster that its pointer named before. -/

namespace RecordLinkage

namespace LinkGraph

def Timely (held : LockTable) (graph : LinkGraph) : Prop :=
  ∀ entity ∈ held.members, ∀ time, graph.stamps entity time → time ≤ graph.lastTick

end LinkGraph

namespace Action

variable {α : Type} {mayFail : Prop} {held : LockTable} {graph : LinkGraph}

abbrev Under (mayFail : Prop) (held : LockTable) (post : α → LinkGraph → Prop) (action : Action α)
    (graph : LinkGraph) : Prop :=
  action.Ensures (LinkGraph.Answers mayFail) (fun _ => held.Allows) (fun _ _ => mayFail) post graph

theorem under_index {call : IndexCall} {post : call.Answer → LinkGraph → Prop}
    (allowed : held.Allows (.index call))
    (holds : ∀ answer after, LinkGraph.Answers mayFail graph (.index call) (.ok answer) after →
      post answer after) : Under mayFail held post (Action.index call) graph := by
  refine ⟨allowed, ?_⟩
  intro answer after answered
  cases answer with
  | ok answer => exact holds answer after answered
  | error error => cases call <;> exact answered.2

theorem under_read {request : Read} {post : request.Answer → LinkGraph → Prop}
    (allowed : held.Allows (.read request))
    (holds : ∀ answer, graph.Reads request answer → post answer graph) :
    Under mayFail held post (Action.read request) graph := by
  refine ⟨allowed, ?_⟩
  intro answer after answered
  cases answer with
  | ok answer => exact answered.1 ▸ holds answer answered.2
  | error error => exact answered.2

theorem under_write {request : Write} {post : Written → LinkGraph → Prop}
    (allowed : held.Allows (.write request))
    (holds : ∀ written after, graph.Writes request after → post written after) :
    Under mayFail held post (Action.write request) graph := by
  refine ⟨allowed, ?_⟩
  intro answer after answered
  cases answer with
  | ok written => exact holds written after answered
  | error error => exact answered.2

theorem under_now {post : Instant → LinkGraph → Prop} (holds : ∀ now, post now graph) :
    Under mayFail held post (ExceptT.lift (Program.perform .now)) graph := by
  refine (ensures_lift _ _).mpr ⟨trivial, ?_⟩
  intro now after answered
  exact Eq.symm answered ▸ holds now

theorem under_pointer {entity : EntityKey} {post : Option Id → LinkGraph → Prop}
    (inside : entity ∈ held.members) (holds : post (graph.pointer entity) graph) :
    Under mayFail held post (ClusterGraph.pointer entity) graph := by
  refine (ensures_bind _ _ _).mpr (under_index inside ?_)
  rintro record after ⟨rfl, found⟩
  have same : record.bind IndexRecord.cluster = after.pointer entity := by
    rw [LinkGraph.pointer, ← found]
    cases record <;> rfl
  exact (ensures_pure _ _).mpr (same ▸ holds)

theorem under_setPointer {cluster : Id} {entity : EntityKey} {post : Nat → LinkGraph → Prop}
    (inside : entity ∈ held.members) (holds : ∀ count, post count (graph.point entity cluster)) :
    Under mayFail held post (ClusterGraph.setPointer cluster entity) graph := by
  refine (ensures_bind _ _ _).mpr (under_now ?_)
  intro now
  refine under_index inside ?_
  rintro count after rfl
  exact holds count

end Action

namespace LinkGraph

structure Recorded (held : LockTable) (cluster : Id) (members : Members) (arrived : Bool)
    (graph after : LinkGraph) : Prop where
  scores : after.scores = graph.scores
  record : after.record = graph.record
  lastTick : graph.lastTick ≤ after.lastTick
  timely : graph.Timely held → after.Timely held
  present : graph.Timely held → after.lastTick ≤ Membership.latest → ∀ cluster' entity,
    after.present cluster' entity =
      if cluster = cluster' ∧ members.has entity then arrived else graph.present cluster' entity

end LinkGraph

namespace Action

variable {mayFail : Prop} {held : LockTable} {graph : LinkGraph} {cluster : Id} {members : Members}

theorem under_tick {post : Int → LinkGraph → Prop}
    (holds : ∀ time, graph.lastTick < time → 1 ≤ time → post time (graph.ticked time)) :
    Under mayFail held post MembershipLog.tick graph := by
  refine (ensures_lift _ _).mpr ⟨trivial, ?_⟩
  rintro time after ⟨later, start, rfl⟩
  exact holds time later start

theorem mem_entries {time : Int} {arrived : Bool} {entry : LogEntry}
    (listed : entry ∈ Membership.entries cluster members (.ofInt (if arrived then time else -time))) :
    entry.cluster = cluster ∧ members.has entry.entity ∧
      entry.stamp = .ofInt (if arrived then time else -time) := by
  simp only [Membership.entries, List.mem_map] at listed
  obtain ⟨entity, member, rfl⟩ := listed
  exact ⟨rfl, Members.mem_entities.mp member, rfl⟩

theorem recorded_of_appends {time : Int} {arrived : Bool} {after : LinkGraph}
    (later : graph.lastTick < time) (start : 1 ≤ time)
    (inside : ∀ entity, members.has entity → entity ∈ held.members)
    (appends : (graph.ticked time).Appends
      (Membership.entries cluster members (.ofInt (if arrived then time else -time))) after) :
    graph.Recorded held cluster members arrived after where
  scores := appends.scores
  record := appends.record
  lastTick := by
    rw [appends.lastTick]
    exact Int.le_of_lt later
  timely := by
    intro timely entity member stamp bears
    rw [appends.lastTick]
    rcases (appends.stamps entity stamp).mp bears with old | ⟨entry, listed, _, rfl⟩
    · have before := timely entity member stamp old
      simp only [LinkGraph.ticked]
      omega
    · -- A time past the latest one cannot be written, and what is written instead is before it.
      by_cases bound : time ≤ Membership.latest
      · exact Int.le_of_eq (Membership.stamp_decides start bound (mem_entries listed).2.2).1
      · have written := Membership.micros_le_latest entry
        simp only [LinkGraph.ticked]
        omega
  present := by
    intro timely bound cluster' entity
    rw [appends.lastTick] at bound
    split
    · rename_i own
      obtain ⟨rfl, member⟩ := own
      have listed : (⟨cluster, entity, .ofInt (if arrived then time else -time)⟩ : LogEntry) ∈
          Membership.entries cluster members (.ofInt (if arrived then time else -time)) :=
        List.mem_map.mpr ⟨entity, Members.mem_entities.mpr member, rfl⟩
      obtain ⟨micros, departs⟩ := Membership.stamp_decides start bound (mem_entries listed).2.2
      have decides := appends.later _ listed
        (fun other found => (mem_entries found).2.2.trans (mem_entries listed).2.2.symm) (by
          intro stamp old
          have before := timely entity (inside entity member) stamp old
          rw [micros]
          omega)
      rw [departs, Bool.not_not] at decides
      exact decides
    · rename_i other
      refine appends.apart cluster' entity ?_
      intro entry found same about
      obtain ⟨own, member, _⟩ := mem_entries found
      exact other ⟨own.symm.trans same, about ▸ member⟩

theorem under_record (arrived : Bool) {time : Int} {post : Nat → LinkGraph → Prop}
    (inside : ∀ entity, members.has entity → entity ∈ held.members)
    (later : graph.lastTick < time) (start : 1 ≤ time)
    (holds : ∀ count after, graph.Recorded held cluster members arrived after → post count after) :
    Under mayFail held post
      (MembershipLog.record cluster members (if arrived then time else -time))
      (graph.ticked time) := by
  unfold MembershipLog.record
  split
  · rename_i none
    refine (ensures_pure _ _).mpr (holds _ _ (recorded_of_appends later start inside ?_))
    rw [none]
    exact ⟨rfl, rfl, rfl, by simp, fun _ _ _ => rfl, by simp⟩
  · rename_i entries _
    refine (ensures_bind _ _ _).mpr (under_write ?_ ?_)
    · intro entry listed
      exact inside _ (mem_entries listed).2.1
    · intro written after appends
      exact (ensures_pure _ _).mpr (holds _ _ (recorded_of_appends later start inside appends))

theorem under_join {post : Nat → LinkGraph → Prop}
    (inside : ∀ entity, members.has entity → entity ∈ held.members)
    (holds : ∀ count after, graph.Recorded held cluster members true after → post count after) :
    Under mayFail held post (MembershipLog.join cluster members) graph := by
  refine (ensures_bind _ _ _).mpr (under_tick ?_)
  intro time later start
  exact under_record true inside later start holds

theorem under_leave {post : Nat → LinkGraph → Prop}
    (inside : ∀ entity, members.has entity → entity ∈ held.members)
    (holds : ∀ count after, graph.Recorded held cluster members false after → post count after) :
    Under mayFail held post (MembershipLog.leave cluster members) graph := by
  refine (ensures_bind _ _ _).mpr (under_tick ?_)
  intro time later start
  exact under_record false inside later start holds

end Action

namespace LinkGraph

structure Moved (held : LockTable) (cluster : Id) (entities : List EntityKey)
    (graph after : LinkGraph) : Prop where
  scores : after.scores = graph.scores
  record : ∀ entity, after.record entity =
    if entity ∈ entities then (graph.record entity).map fun _ => some cluster
    else graph.record entity
  lastTick : graph.lastTick ≤ after.lastTick
  timely : graph.Timely held → after.Timely held
  present : graph.Timely held → after.lastTick ≤ Membership.latest → ∀ cluster' entity,
    after.present cluster' entity =
      if entity ∈ entities ∧ graph.pointer entity = some cluster' ∧ cluster' ≠ cluster then false
      else graph.present cluster' entity

theorem moved_none (held : LockTable) (cluster : Id) (graph : LinkGraph) :
    graph.Moved held cluster [] graph :=
  ⟨rfl, by simp, Int.le_refl _, id, by simp⟩

theorem Moved.cons {held : LockTable} {cluster : Id} {entity : EntityKey}
    {entities : List EntityKey} {graph middle after : LinkGraph} (fresh : entity ∉ entities)
    (first : graph.Moved held cluster [entity] middle)
    (rest : middle.Moved held cluster entities after) :
    graph.Moved held cluster (entity :: entities) after where
  scores := rest.scores.trans first.scores
  record := by
    intro other
    rw [rest.record, first.record]
    by_cases same : other = entity
    · subst same
      simp [fresh]
    · simp [same]
  lastTick := Int.le_trans first.lastTick rest.lastTick
  timely := fun timely => rest.timely (first.timely timely)
  present := by
    intro timely bound cluster' other
    rw [rest.present (first.timely timely) bound,
      first.present timely (Int.le_trans rest.lastTick bound), pointer, first.record]
    by_cases same : other = entity
    · subst same
      simp [fresh, pointer]
    · simp [same, pointer]

end LinkGraph

namespace Action

variable {mayFail : Prop} {held : LockTable} {graph : LinkGraph} {cluster : Id}

theorem under_move {entity : EntityKey} {post : Unit → LinkGraph → Prop}
    (inside : entity ∈ held.members)
    (holds : ∀ after, graph.Moved held cluster [entity] after → post () after) :
    Under mayFail held post (Linking.move cluster entity (graph.pointer entity)) graph := by
  have record : ∀ other, (graph.point entity cluster).record other =
      if other ∈ [entity] then (graph.record other).map fun _ => some cluster
      else graph.record other := by
    intro other
    simp only [LinkGraph.point, List.mem_singleton, eq_comm]
  have stays : graph.pointer entity = none ∨ graph.pointer entity = some cluster →
      graph.Moved held cluster [entity] (graph.point entity cluster) := by
    intro stays
    refine ⟨rfl, record, Int.le_refl _, id, ?_⟩
    intro _ _ cluster' other
    rw [if_neg]
    · rfl
    · rintro ⟨same, old, elsewhere⟩
      rw [List.mem_singleton.mp same] at old
      rcases stays with none | here
      · simp [none] at old
      · rw [here, Option.some.injEq] at old
        exact elsewhere old.symm
  refine (ensures_bind _ _ _).mpr (under_setPointer inside ?_)
  intro _
  cases before : graph.pointer entity with
  | none => exact holds _ (stays (.inl before))
  | some previous =>
      dsimp only
      split
      · rename_i elsewhere
        have member : ∀ other, (Members.single entity).has other → other ∈ held.members := by
          intro other same
          exact Members.has_single.mp same ▸ inside
        refine (ensures_bind _ _ _).mpr (under_leave member ?_)
        intro _ after recorded
        refine (ensures_pure _ _).mpr (holds after ⟨?_, ?_, recorded.lastTick, recorded.timely, ?_⟩)
        · exact recorded.scores
        · rw [recorded.record]
          exact record
        · intro timely bound cluster' other
          refine (recorded.present timely bound cluster' other).trans ?_
          simp only [Members.has_single, List.mem_singleton]
          by_cases same : entity = other
          · subst same
            by_cases here : previous = cluster'
            · subst here
              simp [before, elsewhere]
            · simp [before, here]
              rfl
          · simp [same, Ne.symm same]
            rfl
      · rename_i here
        exact holds _ (stays (.inr (by rw [before, Classical.not_not.mp here])))

theorem under_moveAll {focal : EntityKey} {previous : Option Id} {entities : List EntityKey}
    {post : Unit → LinkGraph → Prop} (distinct : entities.Nodup)
    (inside : ∀ entity ∈ entities, entity ∈ held.members)
    (before : focal ∈ entities → previous = graph.pointer focal)
    (holds : ∀ after, graph.Moved held cluster entities after → post () after) :
    Under mayFail held post (Linking.moveAll focal previous cluster entities) graph := by
  induction entities generalizing graph with
  | nil => exact (ensures_pure _ _).mpr (holds graph (LinkGraph.moved_none held cluster graph))
  | cons entity entities ih =>
      obtain ⟨fresh, distinct⟩ := List.nodup_cons.mp distinct
      have member := inside entity (.head _)
      have moves : Under mayFail held post (do
          Linking.move cluster entity (graph.pointer entity)
          Linking.moveAll focal previous cluster entities) graph := by
        refine (ensures_bind _ _ _).mpr (under_move member ?_)
        intro middle first
        refine ih distinct (fun other listed => inside other (.tail _ listed)) ?_ ?_
        · intro listed
          have apart : focal ≠ entity := fun same => fresh (same ▸ listed)
          rw [before (.tail _ listed), LinkGraph.pointer, LinkGraph.pointer, first.record]
          simp [apart]
        · intro after rest
          exact holds after (first.cons fresh rest)
      unfold Linking.moveAll
      split
      · rename_i same
        subst same
        obtain rfl := before (.head _)
        exact (ensures_bind _ _ _).mpr ((ensures_pure _ _).mpr moves)
      · exact (ensures_bind _ _ _).mpr (under_pointer member moves)

end Action

end RecordLinkage
