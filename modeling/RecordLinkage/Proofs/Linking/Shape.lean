import RecordLinkage.Proofs.Feedback.Duties
import RecordLinkage.Proofs.Linking.Memberships
import RecordLinkage.Proofs.Match.Balance

/-! The shape of the graph over whole runs. Every call that passes, deletions and feedback operations make
keeps the rows balanced, so they are so at every moment. A pass leaves its focal entity a row with
itself. Only what deletes the rows of that entity can take this row away, and while it is there no
pass of another entity moves the pointer. -/

namespace RecordLinkage

namespace Call

def Balances (named : EntityKey → Prop) : Call → Prop
  | .write request => request.Balances named
  | _ => True

variable {named : EntityKey → Prop} {call : Call}

theorem Looks.balances (looks : call.Looks) : call.Balances named := by
  cases call with
  | write => exact looks.elim
  | _ => trivial

theorem Joins.balances {cluster : Id} {entities : List EntityKey} (joins : call.Joins cluster entities) :
    call.Balances named := by
  cases call with
  | write request =>
      cases request with
      | appendEntries => trivial
      | _ => exact joins.elim
  | _ => trivial

end Call

theorem Duty.Permits.balances {duty : Duty} {call : Call} {named : EntityKey → Prop}
    (permitted : duty.Permits call) : call.Balances named := by
  cases call with
  | write request =>
      cases request with
      | upsertFeedback | deleteFeedbackInSet | deleteFeedbackOn => trivial
      | _ =>
          cases duty with
          | owing updates => cases updates <;> exact permitted.elim
          | counted | loaded => exact permitted.elim
  | _ => trivial

namespace Action

section Own

variable {focal : EntityKey} {mayFail : Prop}

theorem looks_scoreAll_focal {properties : Properties} {positive : PairSet} {minimum : Double}
    {candidates : List (EntityKey × Properties)} {scored : Scored} {own : Option Double}
    (known : scored[focal]? = own) :
    (Linking.scoreAll focal properties positive minimum candidates scored).Looks mayFail
      fun scored => scored[focal]? = own := by
  induction candidates generalizing scored with
  | nil => exact asks_pure known
  | cons candidate candidates ih =>
      unfold Linking.scoreAll
      split
      · exact ih known
      · rename_i apart
        refine asks_bind (consults_score focal properties positive candidate).looks fun score _ => ?_
        split
        · exact (ensures_throw _ _).mpr fun locking => locking.elim
        · split
          · refine ih ?_
            rw [Std.ExtTreeMap.getElem?_insert, if_neg (by simpa using apart), known]
          · exact ih known

theorem looks_scoreBlock_focal (block : Block) (positive : PairSet) (minimum : Double) :
    (Linking.scoreBlock block positive minimum).Looks mayFail
      fun scored => scored[block.focal]? = some .one := by
  unfold Linking.scoreBlock
  split
  · exact (ensures_throw _ _).mpr fun locking => locking.elim
  · exact looks_scoreAll_focal (by simp)

end Own

end Action

theorem Linker.looks_prepare_own {mayFail : Prop} (linker : Linker) (focal : EntityKey) :
    (linker.prepare focal).Looks mayFail fun found =>
      ∀ prepared, found = .inr prepared → prepared.scored[prepared.focal]? = some .one := by
  refine Action.asks_bind (Action.looks_build _ _ _ _) ?_
  rintro block rfl
  split
  · exact Action.asks_bind (Action.asks_pointer trivial) fun _ _ => Action.asks_pure nofun
  · refine Action.asks_bind (Action.looks_positivePairs _) fun positive _ => ?_
    refine Action.asks_bind (Action.looks_scoreBlock_focal _ _ _) fun scored own => ?_
    refine Action.asks_pure ?_
    rintro _ ⟨rfl⟩
    exact own

namespace Prepared

variable {prepared : Prepared}

theorem balanced_edges (sound : prepared.Sound) (own : prepared.scored[prepared.focal]? = some .one)
    (snapshot : Linking.Snapshot) (cluster : Id) :
    Balanced (ScoreMap.symmetric prepared.focal (prepared.matched snapshot cluster)).score? := by
  refine ScoreMap.balanced_symmetric (fun score found => ?_) fun entity score found => ?_
  · have known := getElem?_matched found
    rw [own] at known
    exact (Option.some.inj known).symm
  · exact sound.inUnit entity score (getElem?_matched found)

end Prepared

namespace Action

variable {α : Type} {named : EntityKey → Prop}

abbrev BalancesRows (named : EntityKey → Prop) (action : Action α) : Prop :=
  action.Asks True (Call.Balances named) fun _ => True

theorem balances_of_relays {cluster : Id} {entities : List EntityKey} {action : Action α}
    (relays : action.Relays (Call.Joins cluster entities)) : action.BalancesRows named :=
  asks_of_relays (relays.allow fun _ => Call.Joins.balances)

theorem balances_place {prepared : Prepared} {transaction : Transaction} (sound : prepared.Sound)
    (own : prepared.scored[prepared.focal]? = some .one) (staged : transaction.staged = []) :
    (Linking.place transaction prepared.focal prepared.scored prepared.positive).BalancesRows
      (· = prepared.focal) := by
  unfold Linking.place
  refine asks_bind (asks_pointer trivial) fun previous _ => ?_
  have wipes : Call.Balances (· = prepared.focal)
      (.write (.deleteTouching prepared.focal prepared.positive)) := rfl
  refine asks_bind (asks_deleteNeighborhoodIn (fun _ => trivial) wipes _) fun _ _ => ?_
  refine asks_bind (asks_clustersContaining (fun _ => trivial) _) fun ids _ => ?_
  refine asks_bind (asks_clusters (fun _ => trivial) ids) fun snapshot _ => ?_
  refine asks_bind (asks_choose _ _ _ _) fun chosen _ => ?_
  dsimp only
  split
  · exact asks_throw _
  · rename_i accepted ok
    have edges : accepted.staged = prepared.edges snapshot chosen.1 := by
      rw [Transaction.stage_ok ok, staged]
      rfl
    refine asks_bind (asks_flush trivial fun writtenAt => ?_) fun _ _ => ?_
    · exact ⟨chosen.1, _, edges, prepared.balanced_edges sound own snapshot chosen.1⟩
    · refine asks_bind (balances_of_relays (relays_moveAll _ _ _ _)) fun _ _ => ?_
      exact asks_bind (balances_of_relays (relays_join _ [] _)) fun _ _ => asks_pure trivial

theorem balances_settle {prepared : Prepared} {transaction : Transaction} (sound : prepared.Sound)
    (own : prepared.scored[prepared.focal]? = some .one) (staged : transaction.staged = []) :
    (prepared.settle transaction).BalancesRows (· = prepared.focal) := by
  rw [prepared.settle_eq]
  refine (ensures_thenAlways _ _ _).mpr (Program.Ensures.mono (balances_place sound own staged) ?_)
  intro result _ holds
  refine (transaction.ensures_release trivial fun _ _ _ => rfl).mono fun _ _ _ => ?_
  cases result <;> exact holds

theorem balances_link (linker : Linker) (focal : EntityKey) :
    (linker.link focal).BalancesRows (· = focal) := by
  have found : (linker.prepare focal).Looks True _ := linker.looks_prepare_of focal
  have own : (linker.prepare focal).Looks True _ := linker.looks_prepare_own focal
  rw [linker.link_eq]
  refine (ensures_bind _ _ _).mpr (Program.Ensures.mono
    (Program.Ensures.allow (Program.Ensures.and found own) fun _ _ => Call.Looks.balances) ?_)
  rintro result _ ⟨holds, best⟩
  cases result with
  | error error => exact holds
  | ok found =>
      cases found with
      | inl outcome => exact asks_pure trivial
      | inr prepared =>
          obtain ⟨sound, same⟩ := holds
          obtain rfl := same prepared rfl
          refine asks_bind (asks_lockStable _ (fun _ => trivial) (fun _ => trivial)
            (asks_clustersContaining (fun _ => trivial) _)) fun transaction opened => ?_
          exact balances_settle sound (best prepared rfl) opened.1

theorem balances_deleteNeighborhood (entity : EntityKey) (kept : PairSet) :
    (ClusterGraph.deleteNeighborhood entity kept).BalancesRows (· = entity) := by
  have wipes : Call.Balances (· = entity) (.write (.deleteTouching entity kept)) := rfl
  exact asks_deletion _ (fun _ => trivial) (asks_clustersContaining (fun _ => trivial) _)
    (asks_deleteNeighborhoodIn (fun _ => trivial) wipes)

theorem balances_deleteNeighborhoods (set : Id) (keys : IdSet) :
    (ClusterGraph.deleteNeighborhoods set keys).BalancesRows
      fun entity => entity.set = set ∧ entity.key ∈ keys := by
  unfold ClusterGraph.deleteNeighborhoods
  split
  · exact asks_pure trivial
  · have wipes : Call.Balances (fun entity => entity.set = set ∧ entity.key ∈ keys)
        (.write (.deleteTouchingKeys set keys)) := fun key listed => ⟨rfl, listed⟩
    exact asks_deletion _ (fun _ => trivial) (asks_clustersContaining (fun _ => trivial) _)
      fun _ => asks_deleteRows wipes

theorem balances_deleteSet (set : Id) :
    (ClusterGraph.deleteSet set).BalancesRows fun entity => entity.set = set := by
  have wipes : Call.Balances (fun entity => entity.set = set) (.write (.deleteTouchingSet set)) :=
    fun _ own => own
  exact asks_deletion _ (fun _ => trivial)
    (asks_bind (asks_read trivial) fun _ _ => asks_pure trivial) fun _ => asks_deleteRows wipes

end Action

inductive GraphOperation where
  | link (linker : Linker) (focal : EntityKey)
  | feedback (operation : FeedbackOperation)
  | deleteNeighborhood (entity : EntityKey) (kept : PairSet)
  | deleteNeighborhoods (set : Id) (keys : IdSet)
  | deleteSet (set : Id)

namespace GraphOperation

abbrev Result : GraphOperation → Type
  | link _ _ => Except LinkError LinkOutcome
  | feedback _ => Unit
  | _ => Except LinkError Nat

def program : (operation : GraphOperation) → Program operation.Result
  | link linker focal => (linker.link focal).run
  | feedback operation => operation.program
  | deleteNeighborhood entity kept => (ClusterGraph.deleteNeighborhood entity kept).run
  | deleteNeighborhoods set keys => (ClusterGraph.deleteNeighborhoods set keys).run
  | deleteSet set => (ClusterGraph.deleteSet set).run

def Names : GraphOperation → EntityKey → Prop
  | link _ focal, entity => entity = focal
  | feedback _, _ => False
  | deleteNeighborhood named _, entity => entity = named
  | deleteNeighborhoods set keys, entity => entity.set = set ∧ entity.key ∈ keys
  | deleteSet set, entity => entity.set = set

theorem balances_program (operation : GraphOperation) :
    operation.program.Ensures (fun _ call answer _ => call.Succeeds answer ∨ True)
      (fun _ => Call.Balances operation.Names) (fun _ (_ : Unit) => True) () := by
  have drop {α : Type} {named : EntityKey → Prop} {action : Action α}
      (balances : action.BalancesRows named) :
      action.run.Ensures (fun _ call answer _ => call.Succeeds answer ∨ True)
        (fun _ => Call.Balances named) (fun _ (_ : Unit) => True) () :=
    Program.Ensures.mono balances fun _ _ _ => trivial
  cases operation with
  | link linker focal => exact drop (Action.balances_link linker focal)
  | feedback operation =>
      refine Program.Ensures.mono (Program.Ensures.simulate operation.ensures_program
        (fun _ _ => True) trivial (fun _ _ _ _ => Duty.Permits.balances) ?_) fun _ _ _ => trivial
      exact fun _ duty call answer _ _ _ _ => ⟨duty.next call answer, rfl, trivial⟩
  | deleteNeighborhood entity kept => exact drop (Action.balances_deleteNeighborhood entity kept)
  | deleteNeighborhoods set keys => exact drop (Action.balances_deleteNeighborhoods set keys)
  | deleteSet set => exact drop (Action.balances_deleteSet set)

end GraphOperation

namespace System

variable {named : EntityKey → Prop} {system after : System} {call : Call} {answer : call.Answer}

theorem MayAnswer.balanced (possible : system.MayAnswer call answer after) (balances : call.Balances named)
    (sound : system.store.tables.matched.Sound) (balanced : system.store.tables.matched.Balanced) :
    after.store.tables.matched.Balanced := by
  rcases possible.tables with same | ⟨request, rfl, same⟩
  · rwa [same]
  · rw [same]
    exact Write.Balances.written balances sound balanced

theorem MayAnswer.loop_stays (possible : system.MayAnswer call answer after) (balances : call.Balances named)
    (sound : system.store.tables.matched.Sound) {cluster : Id} {entity : EntityKey}
    (unnamed : ¬named entity) (old : system.HasRow cluster ⟨entity, entity⟩) :
    after.HasRow cluster ⟨entity, entity⟩ := by
  -- A write that takes the row away deletes what touches a named entity, and the row touches one only.
  apply Classical.byContradiction
  intro gone
  obtain ⟨request, rfl, wipes⟩ := possible.wipes sound old gone
  obtain ⟨other, isNamed, touches⟩ := Write.Balances.touches balances wipes
  simp only [Link.touches, Bool.or_self, decide_eq_true_eq] at touches
  exact unnamed (touches ▸ isNamed)

end System

namespace GraphOperation

variable {operation : GraphOperation} {before now : System} {rest : Program operation.Result}

/-- At every moment of an operation the rows are balanced, and entities that it does not name keep their
rows with themselves. -/
theorem keeps (reached : Program.Reaches (System.Answers True) operation.program before rest now)
    (sound : before.store.tables.matched.Sound) (balanced : before.store.tables.matched.Balanced) :
    now.store.tables.matched.Sound ∧ now.store.tables.matched.Balanced ∧
      ∀ cluster entity, ¬operation.Names entity → before.HasRow cluster ⟨entity, entity⟩ →
        now.HasRow cluster ⟨entity, entity⟩ := by
  have ensured : operation.program.Ensures (System.Answers True)
      (fun _ => Call.Balances operation.Names) (fun _ _ => True) before :=
    Program.Ensures.mono (Program.Ensures.simulate operation.balances_program (fun _ _ => True) trivial
      (fun _ _ _ _ => id) fun _ _ _ _ _ _ _ _ => ⟨(), .inr trivial, trivial⟩) fun _ _ _ => trivial
  refine reached.keeps ensured (fun now => now.store.tables.matched.Sound ∧
    now.store.tables.matched.Balanced ∧ ∀ cluster entity, ¬operation.Names entity →
      before.HasRow cluster ⟨entity, entity⟩ → now.HasRow cluster ⟨entity, entity⟩)
    ⟨sound, balanced, fun _ _ _ => id⟩ ?_
  rintro now call answer after ⟨sound, balanced, loops⟩ balances answered
  refine ⟨answered.sound_matched sound, answered.1.balanced balances sound balanced, ?_⟩
  exact fun cluster entity unnamed old =>
    answered.1.loop_stays balances sound unnamed (loops cluster entity unnamed old)

end GraphOperation

namespace LinkGraph

variable {graph after : LinkGraph} {prepared : Prepared} {held : LockTable} {reserved : Id}

def HasLoop (graph : LinkGraph) (entity : EntityKey) : Prop :=
  ∃ cluster, (⟨entity, entity⟩ : Link) ∈ graph.scores cluster

theorem hasLoop_of_placed (focal : prepared.focal ∈ prepared.scored)
    (placed : prepared.Placed held reserved graph after) : after.HasLoop prepared.focal := by
  obtain ⟨snapshot, places⟩ := placed
  exact ⟨_, places.joined (Prepared.focal_matched focal _ _)⟩

/-- Whoever has a row with itself and is not the focal entity is in a cluster, and does not join. -/
theorem record_of_placed (placed : prepared.Placed held reserved graph after) {entity : EntityKey}
    (loop : graph.HasLoop entity) (apart : entity ≠ prepared.focal) :
    after.record entity = graph.record entity := by
  obtain ⟨snapshot, places⟩ := placed
  obtain ⟨cluster, listed⟩ := loop
  rw [places.record, if_neg]
  rw [Prepared.mem_joining]
  rintro ⟨accepted, same | unclustered⟩
  · exact apart same
  · refine unclustered ((places.shows.clustered accepted).mpr ⟨cluster, _, ?_, mem_scores_wipe.mpr
      ⟨listed, fun touches => ?_⟩⟩)
    · simp [Link.touches]
    · exact absurd (by simpa [Link.touches] using touches) apart

theorem ensures_loop {linker : Linker} {focal : EntityKey} :
    (linker.link focal).Ensures (Answers True) (fun _ _ => True) (fun _ _ => True)
      (fun outcome after => (outcome.isSkipped = false ∨ graph.HasLoop focal → after.HasLoop focal) ∧
        ∀ entity, entity ≠ focal → graph.HasLoop entity →
          after.pointer entity = graph.pointer entity) graph := by
  rw [linker.link_eq]
  refine (Action.ensures_bind _ _ _).mpr ((ensures_looks (linker.looks_prepare_of focal)).mono ?_)
  rintro found _ ⟨rfl, sound, own⟩
  cases found with
  | inl outcome =>
      refine (Action.ensures_pure _ _).mpr ⟨fun loop => loop.resolve_left fun linked => ?_,
        fun _ _ _ => rfl⟩
      rw [show outcome.isSkipped = true from sound] at linked
      cases linked
  | inr prepared =>
      obtain rfl := own prepared rfl
      refine Action.Ensures.mono (ensures_finish sound) ?_
      rintro outcome after ⟨held, reserved, snapshot, _, places, _⟩
      refine ⟨fun _ => hasLoop_of_placed sound.focal ⟨snapshot, places⟩, fun entity apart loop => ?_⟩
      rw [pointer, record_of_placed ⟨snapshot, places⟩ loop apart]
      rfl

end LinkGraph

inductive GraphEvent where
  | did (operation : GraphOperation) (result : operation.Result)
  | reindexed

namespace GraphEvent

def Turns (before : System) : GraphEvent → System → Prop
  | did operation result, after =>
      Program.Runs (System.Answers True) operation.program before result after
  | reindexed, after => ∃ index, after = { before with index }

def Anchors (entity : EntityKey) : GraphEvent → Prop
  | did (.link _ focal) (.ok outcome) => focal = entity ∧ outcome.isSkipped = false
  | _ => False

def Uproots (entity : EntityKey) : GraphEvent → Prop
  | did (.link _ focal) (.error _) => focal = entity
  | did (.link _ _) (.ok _) => False
  | did operation _ => operation.Names entity
  | reindexed => False

def Anchored (entity : EntityKey) (events : List GraphEvent) : Prop :=
  ∃ before event after, events = before ++ event :: after ∧ event.Anchors entity ∧
    ∀ later ∈ after, ¬later.Uproots entity

end GraphEvent

inductive GraphRun (start : System) : List GraphEvent → System → Prop
  | none : GraphRun start [] start
  | next {events : List GraphEvent} {event : GraphEvent} {before after : System} :
      GraphRun start events before → event.Turns before after → GraphRun start (events ++ [event]) after

namespace System

variable {system before after : System} {entity : EntityKey}

def HasLoop (system : System) (entity : EntityKey) : Prop :=
  ∃ cluster, system.HasRow cluster ⟨entity, entity⟩

theorem Depicts.hasLoop {graph : LinkGraph} (depicted : system.Depicts graph) :
    graph.HasLoop entity ↔ system.HasLoop entity := by
  simp only [LinkGraph.HasLoop, HasLoop, depicted.hasRow]

theorem pass_of_runs {linker : Linker} {focal : EntityKey} {outcome : LinkOutcome}
    (sound : before.store.tables.matched.Sound)
    (run : Program.Runs (Answers True) (linker.link focal).run before (.ok outcome) after) :
    (outcome.isSkipped = false ∨ before.HasLoop focal → after.HasLoop focal) ∧
      ∀ entity, entity ≠ focal → before.HasLoop entity →
        after.pointer entity = before.pointer entity := by
  obtain ⟨image, depicts, loop, points⟩ := (depicts_self sound).runs run LinkGraph.ensures_loop
  have depicted := depicts_self sound
  refine ⟨fun linked => depicts.hasLoop.mp (loop (linked.imp_right depicted.hasLoop.mpr)),
    fun entity apart old => ?_⟩
  rw [← depicts.pointer, ← depicted.pointer]
  exact points entity apart (depicted.hasLoop.mpr old)

end System

namespace GraphEvent

variable {event : GraphEvent} {before after : System} {entity : EntityKey}

theorem Turns.keeps (turns : event.Turns before after) (sound : before.store.tables.matched.Sound)
    (balanced : before.store.tables.matched.Balanced) :
    after.store.tables.matched.Sound ∧ after.store.tables.matched.Balanced := by
  cases event with
  | did operation result =>
      obtain ⟨sound, balanced, _⟩ := GraphOperation.keeps (Program.Runs.reaches turns) sound balanced
      exact ⟨sound, balanced⟩
  | reindexed =>
      obtain ⟨index, rfl⟩ := turns
      exact ⟨sound, balanced⟩

theorem Turns.anchored (turns : event.Turns before after) (sound : before.store.tables.matched.Sound)
    (anchors : event.Anchors entity) : after.HasLoop entity := by
  cases event with
  | reindexed => exact anchors.elim
  | did operation result =>
      cases operation with
      | link linker focal =>
          cases result with
          | error error => exact anchors.elim
          | ok outcome =>
              obtain ⟨rfl, linked⟩ := anchors
              exact (System.pass_of_runs sound turns).1 (.inl linked)
      | _ => exact anchors.elim

theorem Turns.stays (turns : event.Turns before after) (sound : before.store.tables.matched.Sound)
    (balanced : before.store.tables.matched.Balanced) (spared : ¬event.Uproots entity)
    (loop : before.HasLoop entity) : after.HasLoop entity := by
  cases event with
  | reindexed =>
      obtain ⟨index, rfl⟩ := turns
      exact loop
  | did operation result =>
      by_cases named : operation.Names entity
      · -- Of the operations that name the entity, only a pass of it that succeeds has not hit it.
        cases operation with
        | link linker focal =>
            cases result with
            | error error => exact absurd named.symm spared
            | ok outcome =>
                obtain rfl : entity = focal := named
                exact (System.pass_of_runs sound turns).1 (.inr loop)
        | feedback => exact named.elim
        | _ => exact absurd named spared
      · have keeps := (GraphOperation.keeps (Program.Runs.reaches turns) sound balanced).2.2
        obtain ⟨cluster, old⟩ := loop
        exact ⟨cluster, keeps cluster entity named old⟩

end GraphEvent

namespace GraphRun

variable {start system : System} {events : List GraphEvent}

theorem keeps (run : GraphRun start events system) (empty : start.store.tables = .empty) :
    system.store.tables.matched.Sound ∧ system.store.tables.matched.Balanced ∧
      ∀ entity, GraphEvent.Anchored entity events → system.HasLoop entity := by
  induction run with
  | none =>
      rw [empty]
      refine ⟨MatchTable.sound_empty, MatchTable.balanced_empty, ?_⟩
      rintro entity ⟨before, event, after, same, _⟩
      simp at same
  | @next events event before after _ turns ih =>
      obtain ⟨sound, balanced, loops⟩ := ih
      obtain ⟨soundAfter, balancedAfter⟩ := turns.keeps sound balanced
      refine ⟨soundAfter, balancedAfter, ?_⟩
      rintro entity ⟨earlier, anchor, later, same, anchors, spared⟩
      rcases List.eq_nil_or_concat later with rfl | ⟨between, last, rfl⟩
      · obtain ⟨rfl, same⟩ := List.append_inj' same rfl
        obtain rfl : event = anchor := by simpa using same
        exact turns.anchored sound anchors
      · simp only [List.concat_eq_append] at same spared
        rw [← List.cons_append, ← List.append_assoc] at same
        obtain ⟨rfl, same⟩ := List.append_inj' same rfl
        obtain rfl : event = last := by simpa using same
        refine turns.stays sound balanced (spared event (by simp)) (loops entity ?_)
        exact ⟨earlier, anchor, between, rfl, anchors, fun other listed =>
          spared other (List.mem_append_left _ listed)⟩

/-- From empty tables, whatever was done and at every moment of what is done next, rows are balanced. An
entity that a pass has linked has a row with itself until a deletion hits it or a pass of it fails, also
while others are worked on, and no pass of another entity moves its pointer. -/
theorem balanced_and_anchored (empty : start.store.tables = .empty) (run : GraphRun start events system) :
    (∀ (operation : GraphOperation) rest now,
      Program.Reaches (System.Answers True) operation.program system rest now →
        now.store.tables.matched.Balanced ∧
        ∀ cluster link score, now.store.tables.matched.score? cluster link = some score →
          score.isNaN = false) ∧
    ∀ entity, GraphEvent.Anchored entity events →
      (∃ cluster, system.HasRow cluster ⟨entity, entity⟩ ∧ ∀ (operation : GraphOperation) rest now,
        ¬operation.Names entity →
          Program.Reaches (System.Answers True) operation.program system rest now →
          now.HasRow cluster ⟨entity, entity⟩) ∧
      ∀ (linker : Linker) focal outcome after, focal ≠ entity →
        Program.Runs (System.Answers True) (linker.link focal).run system (.ok outcome) after →
        after.pointer entity = system.pointer entity := by
  obtain ⟨sound, balanced, loops⟩ := run.keeps empty
  refine ⟨fun operation rest now reached => ?_, fun entity anchored => ?_⟩
  · obtain ⟨_, balancedNow, _⟩ := GraphOperation.keeps reached sound balanced
    exact ⟨balancedNow, fun cluster link score found =>
      Double.not_isNaN_of_inUnit ((balancedNow cluster).inUnit link score found)⟩
  · have loop := loops entity anchored
    constructor
    · obtain ⟨cluster, old⟩ := loop
      refine ⟨cluster, old, fun operation rest now unnamed reached => ?_⟩
      exact (GraphOperation.keeps reached sound balanced).2.2 cluster entity unnamed old
    · intro linker focal outcome after apart pass
      exact (System.pass_of_runs sound pass).2 entity apart.symm loop

end GraphRun

namespace Sample

theorem anchored_left : ∃ outcome events, outcome.isSkipped = false ∧
    events = [.reindexed, .did (.link linker left) (.ok outcome)] ∧ start.store.tables = .empty ∧
    GraphRun start events linked ∧ GraphEvent.Anchored left events ∧
    (∃ cluster, linked.HasRow cluster ⟨left, left⟩) ∧
    (∃ other, other.isSkipped = false ∧ Program.Runs (System.Answers True) (linker.link right).run linked
      (.ok other) ((linker.link right).run.run System.answer? linked).2) ∧
    ((linker.link right).run.run System.answer? linked).2.pointer left = linked.pointer left := by
  obtain ⟨outcome, done, run⟩ := @System.runs_of_linked linker left written _ loads_asked rfl (by decide +kernel)
  obtain ⟨other, otherDone, otherRun⟩ :=
    @System.runs_of_linked linker right linked _ loads_asked (System.host_run _ _) (by decide +kernel)
  have pass := run.mono fun _ _ _ _ => And.left
  have otherPass := otherRun.mono fun _ _ _ _ => And.left
  have run : GraphRun start [.reindexed, .did (.link linker left) (.ok outcome)] linked :=
    .next (.next .none ⟨_, rfl⟩ : GraphRun start [.reindexed] written) pass
  have anchored : GraphEvent.Anchored left [.reindexed, .did (.link linker left) (.ok outcome)] :=
    ⟨[.reindexed], _, [], rfl, ⟨rfl, done⟩, by simp⟩
  obtain ⟨⟨cluster, row, _⟩, points⟩ := (run.balanced_and_anchored rfl).2 left anchored
  exact ⟨outcome, _, done, rfl, rfl, run, anchored, ⟨cluster, row⟩, ⟨other, otherDone, otherPass⟩,
    points linker right other _ (by decide) otherPass⟩

end Sample

end RecordLinkage
