import RecordLinkage.Proofs.Linking.Pointers

/-! The operations that change the graph, one after the other from empty tables. -/

namespace RecordLinkage

namespace Call

def Removes : Call → Prop
  | .write (.upsertEdges _ _) | .write (.appendEntries _) => False
  | .write (.deleteEntriesInSet _ _) | .write (.deleteEntriesOf _ _) => False
  | .index _ | .tick => False
  | _ => True

end Call

namespace LinkGraph

variable {mayFail : Prop} {graph after : LinkGraph} {call : Call} {answer : call.Answer}

theorem Shrinks.consistent (shrinks : graph.Shrinks after) (consistent : graph.Consistent) :
    after.Consistent := by
  refine consistent.shrunk ?_ ?_
  · rintro cluster entity ⟨link, about, listed⟩
    exact ⟨link, about, shrinks.rows cluster link listed⟩
  · intro entity
    rw [pointer, shrinks.rest]
    rfl

theorem Answers.consistent (answered : Answers mayFail graph call answer after)
    (removes : call.Removes) (consistent : graph.Consistent) : after.Consistent := by
  cases call with
  | write request =>
      cases answer with
      | error error => exact answered.1 ▸ consistent
      | ok written =>
          cases request with
          | deleteEdge | deleteTouchingKeys | deleteTouchingSet =>
              exact Shrinks.consistent answered consistent
          | deleteTouching entity kept =>
              rw [show after = graph.wipe entity kept from answered]
              exact consistent.shrunk (fun _ _ => touches_wipe) fun _ => rfl
          | upsertFeedback | deleteFeedbackInSet | deleteFeedbackOn =>
              exact Eq.symm answered ▸ consistent
          | upsertEdges | appendEntries | deleteEntriesInSet | deleteEntriesOf =>
              exact removes.elim
  | read request =>
      cases answer <;> exact answered.1 ▸ consistent
  | index | tick => exact removes.elim
  | _ => exact Eq.symm answered ▸ consistent

end LinkGraph

namespace Action

variable {α : Type}

section Asks

variable {allowed : Call → Prop}

theorem asks_throw {post : α → Prop} (error : LinkError) :
    (throw error : Action α).Asks True allowed post :=
  (ensures_throw _ _).mpr fun _ => trivial

theorem asks_takeLocks (fits : ∀ request, allowed (.lock request)) (locks : List Lock) :
    Action.Asks True allowed (fun _ => True) (ExceptT.lift (takeLocks locks)) := by
  induction locks with
  | nil => trivial
  | cons lock locks ih =>
      refine (ensures_lift _ _).mpr ⟨fits _, ?_⟩
      intro _ _ _
      exact (ensures_lift (takeLocks locks) _).mp ih

theorem asks_release (fits : ∀ request, allowed (.lock request)) (transaction : Transaction) :
    Action.Asks True allowed (fun _ => True) (ExceptT.lift transaction.release) := by
  unfold Transaction.release releaseLocks
  split
  · trivial
  · exact asks_lift (fits _)

theorem asks_onFailure {post : α → Prop} {action : Action α} (fits : ∀ request, allowed (.lock request))
    (transaction : Transaction) (asks : action.Asks True allowed post) :
    (action.onFailure transaction.rollback).Asks True allowed post := by
  refine (ensures_onFailure _ _ _).mpr (Program.Ensures.mono asks ?_)
  intro result _ holds
  cases result with
  | ok value => exact holds
  | error error =>
      refine Program.Ensures.mono ((ensures_lift _ _).mp (asks_release fits transaction)) ?_
      exact fun _ _ _ _ => trivial

theorem asks_clustersContaining (fits : ∀ request, allowed (.read request)) (entities : EntitySet) :
    (ClusterGraph.clustersContaining entities).Asks True allowed fun _ => True := by
  unfold ClusterGraph.clustersContaining
  split
  · exact asks_pure trivial
  · exact asks_read (fits _)

theorem asks_clusters (fits : ∀ request, allowed (.read request)) (ids : IdSet) :
    (ClusterGraph.clusters ids).Asks True allowed fun _ => True := by
  unfold ClusterGraph.clusters
  split
  · exact asks_pure trivial
  · exact asks_read (fits _)

theorem asks_reserveId {reserve : Bool} (draws : reserve → allowed .drawId) :
    Action.Asks True allowed (fun reserved => reserve → reserved.isSome)
      (ExceptT.lift (ClusterGraph.reserveId reserve)) := by
  cases reserve with
  | false => exact nofun
  | true => exact (ensures_lift _ _).mpr ⟨draws rfl, fun _ _ _ _ => rfl⟩

theorem asks_tryLock {reserve : Bool} (members : EntitySet) {find : Action IdSet}
    (locks : ∀ request, allowed (.lock request)) (draws : reserve → allowed .drawId)
    (finds : find.Asks True allowed fun _ => True) :
    (ClusterGraph.tryLock members reserve find).Asks True allowed
      fun result => ∀ transaction, result = some transaction →
        transaction.staged = [] ∧ (reserve → transaction.reserved.isSome) := by
  refine asks_bind finds fun found _ => ?_
  refine asks_bind (asks_reserveId draws) fun reserved drawn => asks_bind (asks_takeLocks locks _) fun _ _ => ?_
  refine asks_bind (asks_onFailure locks _ finds) fun again _ => ?_
  split
  · refine asks_pure ?_
    intro transaction same
    obtain rfl := Option.some.inj same
    exact ⟨rfl, drawn⟩
  · exact asks_bind (asks_release locks _) fun _ _ => asks_pure (by simp)

theorem asks_lockStable {reserve : Bool} (members : EntitySet) {find : Action IdSet}
    (locks : ∀ request, allowed (.lock request)) (draws : reserve → allowed .drawId)
    (finds : find.Asks True allowed fun _ => True) :
    (ClusterGraph.lockStable members reserve find).Asks True allowed
      fun transaction => transaction.staged = [] ∧ (reserve → transaction.reserved.isSome) := by
  unfold ClusterGraph.lockStable
  induction ClusterGraph.maxLockAttempts with
  | zero => exact asks_throw _
  | succ attempts ih =>
      refine asks_bind (asks_tryLock members locks draws finds) fun result opened => ?_
      cases result with
      | some transaction => exact asks_pure (opened transaction rfl)
      | none => exact ih

theorem asks_deleteRows {request : Write} (fits : allowed (.write request)) :
    (ClusterGraph.deleteRows request).Asks True allowed fun _ => True :=
  asks_bind (asks_write fits) fun _ _ => asks_pure trivial

theorem asks_deleteNeighborhoodIn {entity : EntityKey} {kept : PairSet}
    (reads : ∀ request, allowed (.read request)) (wipes : allowed (.write (.deleteTouching entity kept)))
    (transaction : Transaction) :
    (ClusterGraph.deleteNeighborhoodIn transaction entity kept).Asks True allowed fun _ => True := by
  unfold ClusterGraph.deleteNeighborhoodIn
  split
  · exact asks_throw _
  · refine asks_bind (asks_clustersContaining reads _) fun touched _ => ?_
    split
    · exact asks_throw _
    · exact asks_deleteRows wipes

theorem asks_choose (transaction : Transaction) (focal : EntityKey) (scored : Scored)
    (snapshot : Linking.Snapshot) :
    (Linking.choose transaction focal scored snapshot).Asks True allowed fun _ => True := by
  unfold Linking.choose
  split
  · exact asks_pure trivial
  · split
    · exact asks_pure trivial
    · exact asks_throw _

theorem asks_flush {transaction : Transaction} (now : allowed .now)
    (writes : ∀ writtenAt, allowed (.write (.upsertEdges transaction.staged writtenAt))) :
    transaction.flush.Asks True allowed fun _ => True := by
  unfold Transaction.flush
  split
  · exact asks_pure trivial
  · refine asks_bind (asks_lift now) fun writtenAt _ => ?_
    exact asks_bind (asks_write (writes writtenAt)) fun _ _ => asks_pure trivial

/-- A deletion asks for what its look-up and the deletion itself ask for; it has nothing to write. -/
theorem asks_deletion (members : EntitySet) {find : Action IdSet}
    (locks : ∀ request, allowed (.lock request)) (finds : find.Asks True allowed fun _ => True)
    {deletion : Transaction → Action Nat}
    (deletes : ∀ transaction, (deletion transaction).Asks True allowed fun _ => True) :
    Action.Asks True allowed (fun _ => True) (do
      let transaction ← ClusterGraph.lockStable members false find
      ClusterGraph.deleteHolding transaction (deletion transaction)) := by
  refine asks_bind (asks_lockStable members locks nofun finds) fun transaction opened => ?_
  refine asks_bind (asks_onFailure locks transaction (deletes transaction)) fun rows _ => ?_
  have commits : transaction.commit.Asks True allowed fun _ => True := by
    refine (ensures_thenAlways _ _ _).mpr ?_
    simp only [Transaction.flush, opened.1, List.isEmpty_nil, if_true]
    have released := (ensures_lift transaction.release ()).mp (asks_release locks transaction)
    exact (Program.ensures_pure (Except.ok 0) _).mpr (released.mono fun _ _ _ => trivial)
  exact asks_bind commits fun _ _ => asks_pure trivial

end Asks

abbrev Removes (post : α → Prop) (action : Action α) : Prop := action.Asks True Call.Removes post

theorem removes_clustersContaining (entities : EntitySet) :
    (ClusterGraph.clustersContaining entities).Removes fun _ => True :=
  asks_clustersContaining (fun _ => trivial) entities

theorem removes_deletion (members : EntitySet) {find : Action IdSet} (finds : find.Removes fun _ => True)
    {deletion : Transaction → Action Nat}
    (deletes : ∀ transaction, (deletion transaction).Removes fun _ => True) :
    Action.Removes (fun _ => True) (do
      let transaction ← ClusterGraph.lockStable members false find
      ClusterGraph.deleteHolding transaction (deletion transaction)) :=
  asks_deletion members (fun _ => trivial) finds deletes

theorem removes_deleteEdge (link : Link) :
    (ClusterGraph.deleteEdge link).Removes fun _ => True :=
  removes_deletion _ (removes_clustersContaining _) fun _ => asks_deleteRows trivial

theorem removes_deleteNeighborhood (entity : EntityKey) (kept : PairSet) :
    (ClusterGraph.deleteNeighborhood entity kept).Removes fun _ => True :=
  removes_deletion _ (removes_clustersContaining _) (asks_deleteNeighborhoodIn (fun _ => trivial) trivial)

theorem removes_deleteNeighborhoods (set : Id) (keys : IdSet) :
    (ClusterGraph.deleteNeighborhoods set keys).Removes fun _ => True := by
  unfold ClusterGraph.deleteNeighborhoods
  split
  · exact asks_pure trivial
  · exact removes_deletion _ (removes_clustersContaining _) fun _ => asks_deleteRows trivial

theorem removes_deleteSet (set : Id) : (ClusterGraph.deleteSet set).Removes fun _ => True := by
  have finds : (ClusterGraph.clustersTouchingSet set).Removes fun _ => True :=
    asks_bind (asks_read trivial) fun _ _ => asks_pure trivial
  exact removes_deletion _ finds fun _ => asks_deleteRows trivial

theorem removes_add (a b : EntityKey) (linked : Bool) :
    (FeedbackService.add a b linked).Removes fun _ => True :=
  asks_bind (asks_write trivial) fun _ _ => asks_bind (asks_lift trivial) fun _ _ =>
    asks_pure trivial

theorem removes_deleteFeedback {request : Write} (fits : (Call.write request).Removes) :
    (FeedbackService.delete request).Removes fun _ => True := by
  have forgets : ∀ pairs, (FeedbackService.forget pairs).Removes fun _ => True := by
    intro pairs
    induction pairs with
    | nil => exact asks_pure trivial
    | cons pair pairs ih => exact asks_bind (asks_lift trivial) fun _ _ => ih
  exact asks_bind (asks_write fits) fun written _ => asks_bind (forgets written.removed) fun _ _ =>
    asks_pure trivial

end Action

namespace Index

variable (index : Index) (entity : EntityKey)

theorem cluster_recordWrite (writtenAt : Instant) (other : EntityKey) :
    (index.recordWrite entity writtenAt)[other]?.bind IndexRecord.cluster =
      index[other]?.bind IndexRecord.cluster := by
  rw [getElem?_recordWrite, Std.ExtTreeMap.getD_eq_getD_getElem?]
  split
  · rename_i same
    rw [← same]
    cases index[entity]? <;> rfl
  · rfl

theorem cluster_tombstone (other : EntityKey) :
    (index.tombstone entity).2[other]?.bind IndexRecord.cluster =
      index[other]?.bind IndexRecord.cluster := by
  rw [getElem?_tombstone]
  split
  · cases index[other]? <;> rfl
  · rfl

end Index

inductive Operates : System → System → Prop
  | link (linker : Linker) (focal : EntityKey) {before after : System} {outcome : LinkOutcome} :
      Program.Runs (System.Answers True) (linker.link focal).run before (.ok outcome) after →
      Operates before after
  | addFeedback (a b : EntityKey) (linked : Bool) {before after : System}
      {result : Except LinkError Feedback} :
      Program.Runs (System.Answers True) (FeedbackService.add a b linked).run before result after →
      Operates before after
  | deleteFeedbackInSet (set : Id) (keys : Option IdSet) {before after : System}
      {result : Except LinkError Nat} :
      Program.Runs (System.Answers True) (FeedbackService.deleteInSet set keys).run before result
        after →
      Operates before after
  | deleteFeedbackOn (entity : EntityKey) {before after : System} {result : Except LinkError Nat} :
      Program.Runs (System.Answers True) (FeedbackService.deleteOn entity).run before result after →
      Operates before after
  | deleteEdge (link : Link) {before after : System} {result : Except LinkError Nat} :
      Program.Runs (System.Answers True) (ClusterGraph.deleteEdge link).run before result after →
      Operates before after
  | deleteNeighborhood (entity : EntityKey) (kept : PairSet) {before after : System}
      {result : Except LinkError Nat} :
      Program.Runs (System.Answers True) (ClusterGraph.deleteNeighborhood entity kept).run before
        result after →
      Operates before after
  | deleteNeighborhoods (set : Id) (keys : IdSet) {before after : System}
      {result : Except LinkError Nat} :
      Program.Runs (System.Answers True) (ClusterGraph.deleteNeighborhoods set keys).run before
        result after →
      Operates before after
  | deleteSet (set : Id) {before after : System} {result : Except LinkError Nat} :
      Program.Runs (System.Answers True) (ClusterGraph.deleteSet set).run before result after →
      Operates before after
  | recordWrite (entity : EntityKey) (writtenAt : Instant) (system : System) :
      Operates system { system with index := system.index.recordWrite entity writtenAt }
  | tombstone (entity : EntityKey) (system : System) :
      Operates system { system with index := (system.index.tombstone entity).2 }

inductive Operations : System → System → Prop
  | none (system : System) : Operations system system
  | next {start before after : System} :
      Operations start before → Operates before after → Operations start after

theorem Transaction.ensures_release {σ : Type} {answers : Answering σ} {safe : σ → Call → Prop} {state : σ}
    (transaction : Transaction)
    (fits : safe state (.lock (.release transaction.members transaction.clusters)))
    (kept : ∀ answer after,
      answers state (.lock (.release transaction.members transaction.clusters)) answer after → after = state) :
    transaction.release.Ensures answers safe (fun _ after => after = state) state := by
  unfold release releaseLocks
  split
  · rfl
  · exact ⟨fits, kept⟩

namespace LinkGraph

variable {graph : LinkGraph}

theorem ensures_looks {α : Type} {mayFail : Prop} {post : α → Prop} {action : Action α}
    (looks : action.Looks True post) :
    action.Ensures (Answers mayFail) (fun _ _ => True) (fun _ _ => True)
      (fun value after => after = graph ∧ post value) graph := by
  refine (Action.Asks.ensures looks (· = graph) rfl (fun _ _ _ _ => trivial) ?_).refuse fun _ _ _ => trivial
  rintro _ call answer after rfl allowed answered
  exact answered.looked allowed

theorem ensures_removes {α : Type} {mayFail : Prop} {post : α → Prop} {action : Action α}
    (removes : action.Removes post) (consistent : graph.Consistent) :
    action.run.Ensures (Answers mayFail) (fun _ _ => True) (fun _ after => after.Consistent)
      graph := by
  have kept : action.Ensures (Answers mayFail) (fun _ _ => True) _ _ graph :=
    Action.Asks.ensures removes Consistent consistent (fun _ _ _ _ => trivial)
      fun _ _ _ _ consistent allowed answered => answered.consistent allowed consistent
  refine Program.Ensures.mono kept ?_
  rintro (_ | _) state holds
  · exact holds
  · exact holds.1

/-- Alone a pass gets locks on every cluster of what it locks. -/
theorem ensures_lockMembers {members : EntitySet} (filled : members.isEmpty = false) :
    (ClusterGraph.lockMembers members).Ensures (Answers True) (fun _ _ => True)
      (fun _ after => after = graph) (fun transaction after => after = graph ∧ ∃ progress,
        LockProgress.Acquired members (graph.Reads (.clustersContaining members)) (fun _ => True)
          transaction progress) graph := by
  refine Program.Ensures.mono (Program.Ensures.simulate
    (RecordLinkage.ensures_lockMembers True (graph.Reads (.clustersContaining members))
      (fun _ => True) filled (show LockProgress.start.held = .empty from rfl))
    (fun state (_ : LockProgress) => state = graph) rfl (fun _ _ _ _ _ => trivial) ?_) ?_
  · rintro _ progress call answer after rfl allowed answered
    have drawn : LockProgress.Draws (fun _ => True) call answer := by cases call <;> trivial
    obtain ⟨same, later, given⟩ := LockProgress.answers_of_graph answered drawn allowed
    exact ⟨later, given, same⟩
  · rintro result _ ⟨progress, rfl, holds⟩
    cases result with
    | ok transaction => exact ⟨rfl, progress, holds⟩
    | error error => rfl

theorem ensures_settle {prepared : Prepared} {reserved : Id} {transaction : Transaction}
    (sound : prepared.Sound) (serves : transaction.Serves prepared reserved)
    (closed : graph.Closed transaction.locks) :
    (prepared.settle transaction).Ensures (Answers True) (fun _ _ => True) (fun _ _ => True)
      (fun outcome after => (∃ snapshot, prepared.Reports reserved snapshot outcome ∧
        prepared.Places transaction.locks reserved snapshot graph after) ∧
        graph.Within transaction.locks after) graph := by
  have places : Action.Under True transaction.locks (fun outcome after =>
      ∃ snapshot, prepared.Reports reserved snapshot outcome ∧
        prepared.Places transaction.locks reserved snapshot graph after)
      (Linking.place transaction prepared.focal prepared.scored prepared.positive) graph :=
    Action.under_place sound serves closed fun snapshot _ _ reports places => ⟨snapshot, reports, places⟩
  rw [prepared.settle_eq]
  refine (Action.ensures_thenAlways _ _ _).mpr ?_
  refine Program.Ensures.mono (Program.Ensures.simulate (Program.Ensures.within places closed)
    (fun state image => state = image) rfl (fun _ _ _ _ _ => trivial) ?_) ?_
  · rintro state _ call answer after rfl _ answered
    exact ⟨after, answered, rfl⟩
  · rintro result state ⟨_, rfl, holds, within⟩
    refine (transaction.ensures_release trivial fun _ _ answered => answered).mono ?_
    rintro _ _ rfl
    cases result with
    | ok outcome => exact ⟨holds, within⟩
    | error error => trivial

/-- A pass that finds something to link, alone from its locking on. -/
theorem ensures_finish {prepared : Prepared} (sound : prepared.Sound) :
    prepared.finish.Ensures (Answers True) (fun _ _ => True) (fun _ _ => True)
      (fun outcome after => ∃ held reserved snapshot, prepared.Reports reserved snapshot outcome ∧
        prepared.Places held reserved snapshot graph after ∧ graph.Within held after) graph := by
  refine (Action.ensures_bind _ _ _).mpr
    (((ensures_lockMembers sound.filled).refuse fun _ _ _ => trivial).mono ?_)
  rintro transaction _ ⟨rfl, progress, acquired⟩
  obtain ⟨reserved, own, holds, _⟩ := acquired.reserved
  obtain ⟨ids, _, exact', listed⟩ := acquired.seen
  refine (ensures_settle sound ⟨acquired.members, own, holds, acquired.staged⟩ ?_).mono ?_
  · intro entity inside cluster touches
    rw [Transaction.locks, acquired.members] at inside
    exact listed cluster ((exact' cluster).mpr ⟨entity, inside, touches⟩)
  · rintro outcome after ⟨⟨snapshot, reports, places⟩, within⟩
    exact ⟨_, reserved, snapshot, reports, places, within⟩

theorem consistent_link {linker : Linker} {focal : EntityKey} (consistent : graph.Consistent) :
    (linker.link focal).Ensures (Answers True) (fun _ _ => True) (fun _ _ => True)
      (fun _ after => after.Consistent) graph := by
  rw [linker.link_eq]
  refine (Action.ensures_bind _ _ _).mpr ((ensures_looks (linker.looks_prepare focal)).mono ?_)
  rintro found _ ⟨rfl, sound⟩
  cases found with
  | inl outcome => exact (Action.ensures_pure _ _).mpr consistent
  | inr prepared =>
      refine Action.Ensures.mono (ensures_finish sound) ?_
      rintro outcome after ⟨_, _, snapshot, _, places, _⟩
      exact consistent.placed sound ⟨snapshot, places⟩

end LinkGraph

namespace System

structure Consistent (system : System) : Prop where
  single : ∀ (entity : EntityKey) (cluster other : Id),
    Touched (system.store.tables.matched.rowsOf cluster) entity →
    Touched (system.store.tables.matched.rowsOf other) entity → cluster = other
  pointed : ∀ (entity : EntityKey) (record : IndexRecord) (cluster : Id),
    system.index[entity]? = some record → record.cluster = some cluster →
    ∀ other, Touched (system.store.tables.matched.rowsOf other) entity → other = cluster

theorem Depicts.consistent {system : System} {graph : LinkGraph} (depicted : system.Depicts graph)
    (consistent : graph.Consistent) : system.Consistent where
  single := fun entity cluster other here there => consistent.single entity cluster other
    (depicted.touches.mpr here) (depicted.touches.mpr there)
  pointed := by
    intro entity record cluster known points other touched
    refine consistent.pointed entity cluster ?_ other (depicted.touches.mpr touched)
    rw [LinkGraph.pointer, depicted.record, known]
    simpa using points

theorem Depicts.runs {α : Type} {system after : System} {graph : LinkGraph}
    {program : Program α} {value : α} {post : α → LinkGraph → Prop}
    (depicted : system.Depicts graph)
    (run : Program.Runs (System.Answers True) program system value after)
    (ensured : program.Ensures (LinkGraph.Answers True) (fun _ _ => True) post graph) :
    ∃ image, after.Depicts image ∧ post value image := by
  refine run.ensured (ensured.simulate Depicts depicted (fun _ _ _ _ _ => trivial) ?_)
  intro system graph call answer after depicted _ answered
  exact depicted.answered answered

theorem Depicts.reindexed {system : System} {graph : LinkGraph} {index : Index}
    (depicted : system.Depicts graph)
    (pointer : ∀ entity : EntityKey,
      index[entity]?.bind IndexRecord.cluster = system.index[entity]?.bind IndexRecord.cluster) :
    ∃ record, ({ system with index } : System).Depicts { graph with record } ∧
      ∀ entity, (record entity).join = graph.pointer entity := by
  refine ⟨(({ system with index } : System).graph graph.lastTick).record,
    ⟨depicted.sound, ?_, depicted.ahead, depicted.bounded⟩, ?_⟩
  · rw [depicted.shown]
    rfl
  · intro entity
    rw [LinkGraph.pointer, depicted.record]
    have same := pointer entity
    cases old : system.index[entity]? <;> cases new : index[entity]? <;>
      simp_all [System.graph]

theorem depicts_of_operates {before after : System} {graph : LinkGraph}
    (operated : Operates before after) (depicted : before.Depicts graph)
    (consistent : graph.Consistent) : ∃ image, after.Depicts image ∧ image.Consistent := by
  cases operated with
  | link linker focal run =>
      exact depicted.runs run (LinkGraph.consistent_link consistent)
  | addFeedback a b linked run =>
      exact depicted.runs run (LinkGraph.ensures_removes (Action.removes_add a b linked) consistent)
  | deleteFeedbackInSet set keys run =>
      exact depicted.runs run
        (LinkGraph.ensures_removes (Action.removes_deleteFeedback trivial) consistent)
  | deleteFeedbackOn entity run =>
      exact depicted.runs run
        (LinkGraph.ensures_removes (Action.removes_deleteFeedback trivial) consistent)
  | deleteEdge link run =>
      exact depicted.runs run
        (LinkGraph.ensures_removes (Action.removes_deleteEdge link) consistent)
  | deleteNeighborhood entity kept run =>
      exact depicted.runs run
        (LinkGraph.ensures_removes (Action.removes_deleteNeighborhood entity kept) consistent)
  | deleteNeighborhoods set keys run =>
      exact depicted.runs run
        (LinkGraph.ensures_removes (Action.removes_deleteNeighborhoods set keys) consistent)
  | deleteSet set run =>
      exact depicted.runs run (LinkGraph.ensures_removes (Action.removes_deleteSet set) consistent)
  | recordWrite entity writtenAt =>
      obtain ⟨_, depicts, pointer⟩ :=
        depicted.reindexed (before.index.cluster_recordWrite entity writtenAt)
      exact ⟨_, depicts, consistent.shrunk (fun _ _ touches => touches) pointer⟩
  | tombstone entity =>
      obtain ⟨_, depicts, pointer⟩ := depicted.reindexed (before.index.cluster_tombstone entity)
      exact ⟨_, depicts, consistent.shrunk (fun _ _ touches => touches) pointer⟩

theorem consistent_empty {system : System} (time : Int) (empty : system.store.tables = .empty) :
    (system.graph time).Consistent := by
  have apart : ∀ cluster entity, ¬(system.graph time).Touches cluster entity := by
    rintro cluster entity ⟨link, _, listed⟩
    simp [System.graph, empty, Tables.empty, MatchTable.empty, MatchTable.rowsOf,
      ClusterRows.mem_scores] at listed
  exact ⟨fun entity cluster _ touches => absurd touches (apart cluster entity),
    fun entity _ _ cluster touches => absurd touches (apart cluster entity)⟩

/-- From empty tables all operations keep entities in one cluster, where their pointers lead. -/
theorem consistent_of_operations {start after : System} (empty : start.store.tables = .empty)
    (operations : Operations start after) : after.Consistent := by
  have depicted : ∃ graph, after.Depicts graph ∧ graph.Consistent := by
    induction operations with
    | none =>
        exact ⟨_, depicts_self (by rw [empty]; exact MatchTable.sound_empty), consistent_empty _ empty⟩
    | next _ operated ih =>
        obtain ⟨graph, depicted, consistent⟩ := ih
        exact depicts_of_operates operated depicted consistent
  obtain ⟨graph, depicted, consistent⟩ := depicted
  exact depicted.consistent consistent

end System

namespace Sample

def written : System := { start with index := start.index.recordWrite left noon }

def linked : System := ((linker.link left).run.run System.answer? written).2

end Sample

theorem Operates.of_run {linker : Linker} {focal : EntityKey} {system : System}
    (ended : ((linker.link focal).run.run System.answer? system).1.result?.any Except.isOk) :
    Operates system ((linker.link focal).run.run System.answer? system).2 := by
  obtain ⟨result, same, ok⟩ := (Option.any_eq_true _ _).mp ended
  cases result with
  | error error => contradiction
  | ok outcome =>
      refine .link linker focal ((Program.runs_of_result same).mono ?_)
      intro state call answer after answered
      exact ⟨System.mayAnswer_of_answer? answered, .inr trivial⟩

theorem consistent_of_pass : Sample.start.store.tables = .empty ∧
    Operations Sample.start Sample.linked ∧ Sample.linked.Consistent := by
  have operations : Operations Sample.start Sample.linked :=
    .next (.next (.none _) (.recordWrite Sample.left Sample.noon Sample.start))
      (.of_run (by decide +kernel))
  exact ⟨rfl, operations, System.consistent_of_operations rfl operations⟩

end RecordLinkage
