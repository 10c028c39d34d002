import Mathlib.Logic.Relation
import RecordLinkage.Proofs.Linking.Alone
import RecordLinkage.Proofs.Linking.Calls
import RecordLinkage.Proofs.Linking.Candidates
import RecordLinkage.Proofs.Membership.Clock

/-! The membership log and the link pointers agree: by the log the members of a cluster are those that
point at it. A pass moves both in turn, one entity after the other, and they agree again when it is done;
whatever else goes on touches neither. -/

namespace RecordLinkage

namespace Call

def KeepsMembers : Call → Prop
  | .write (.appendEntries _) | .write (.deleteEntriesInSet _ _) | .write (.deleteEntriesOf _ _) => False
  | .index (.setCluster _ _ _) | .tick => False
  | _ => True

theorem Looks.keepsMembers {call : Call} (looks : call.Looks) : call.KeepsMembers := by
  cases call with
  | index request =>
      cases request with
      | setCluster => exact looks.elim
      | _ => trivial
  | write | tick => exact looks.elim
  | _ => trivial

theorem Removes.keepsMembers {call : Call} (removes : call.Removes) : call.KeepsMembers := by
  cases call with
  | write request =>
      cases request with
      | appendEntries | deleteEntriesInSet | deleteEntriesOf => exact removes.elim
      | _ => trivial
  | index | tick => exact removes.elim
  | _ => trivial

def Unflushed : (call : Call) → call.Answer → Prop
  | .write (.upsertEdges _ _), .ok _ => False
  | _, _ => True

end Call

namespace LinkGraph

variable {mayFail : Prop} {graph middle after : LinkGraph} {call : Call} {answer : call.Answer}

def Rescored (graph after : LinkGraph) : Prop := after = { graph with scores := after.scores }

theorem Rescored.trans (first : graph.Rescored middle) (second : middle.Rescored after) :
    graph.Rescored after := by
  rw [Rescored, second, first]

theorem Answers.rescored (answered : Answers mayFail graph call answer after)
    (keeps : call.KeepsMembers) : graph.Rescored after := by
  have unchanged : graph.Rescored graph := rfl
  cases call with
  | write request =>
      cases answer with
      | error error => exact answered.1 ▸ unchanged
      | ok written =>
          cases request with
          | upsertEdges edges writtenAt => exact Eq.symm answered ▸ graph.upsert_rest edges
          | deleteTouching entity kept => exact Eq.symm answered ▸ rfl
          | deleteEdge | deleteTouchingKeys | deleteTouchingSet => exact Shrinks.rest answered
          | upsertFeedback | deleteFeedbackInSet | deleteFeedbackOn =>
              exact Eq.symm answered ▸ unchanged
          | appendEntries | deleteEntriesInSet | deleteEntriesOf => exact keeps.elim
  | read request =>
      cases answer <;> exact answered.1 ▸ unchanged
  | index request =>
      cases request with
      | setCluster => exact keeps.elim
      | record => cases answer <;> exact answered.1 ▸ unchanged
      | needingLinking | notLinked =>
          cases answer with
          | ok answer => exact Eq.symm answered ▸ unchanged
          | error error => exact answered.1 ▸ unchanged
  | tick => exact keeps.elim
  | _ => exact Eq.symm answered ▸ unchanged

theorem ensures_rescored {α : Type} {allowed : Call → Prop} {post : α → Prop} {action : Action α}
    {answers : Answering LinkGraph} (asks : action.Asks True allowed post)
    (keeps : ∀ call, allowed call → call.KeepsMembers)
    (weaken : ∀ graph call answer after, answers graph call answer after →
      Answers True graph call answer after) :
    action.Ensures answers (fun _ _ => True) (fun _ after => graph.Rescored after)
      (fun value after => graph.Rescored after ∧ post value) graph := by
  refine asks.ensures graph.Rescored rfl (fun _ _ _ _ => trivial) ?_
  exact fun _ call _ _ rescored fits answered =>
    rescored.trans ((weaken _ _ _ _ answered).rescored (keeps call fits))

theorem rescored_of_unflushed {linker : Linker} {focal : EntityKey} :
    (linker.link focal).Ensures
      (fun graph call answer after => Answers True graph call answer after ∧ call.Unflushed answer)
      (fun _ _ => True) (fun _ after => graph.Rescored after) (fun _ _ => True) graph := by
  rw [linker.link_eq]
  refine (Action.ensures_bind _ _ _).mpr ((ensures_rescored (linker.looks_prepare focal)
    (fun _ => Call.Looks.keepsMembers) fun _ _ _ _ => And.left).mono ?_)
  rintro found middle ⟨looked, sound⟩
  cases found with
  | inl outcome => trivial
  | inr prepared =>
      refine Program.Ensures.mono (Program.Ensures.simulate (Action.permitted_finish sound)
        (fun state flushed => flushed = false ∧ graph.Rescored state) ⟨rfl, looked⟩
        (fun _ _ _ _ _ => trivial) ?_) ?_
      · rintro state _ call answer after ⟨rfl, rescored⟩ permitted ⟨answered, unflushed⟩
        have keeps : call.KeepsMembers := by
          cases call with
          | write request =>
              cases request with
              | appendEntries => exact nomatch permitted
              | deleteEntriesInSet | deleteEntriesOf => exact permitted.elim
              | _ => trivial
          | index request =>
              cases request with
              | setCluster => exact nomatch permitted
              | _ => trivial
          | tick => exact nomatch permitted
          | _ => trivial
        refine ⟨false, ?_, rfl, rescored.trans (answered.rescored keeps)⟩
        unfold Linking.Flushes
        split
        · exact unflushed.elim
        · rfl
      · rintro result state ⟨_, ⟨rfl, rescored⟩, holds⟩
        cases result with
        | ok outcome => trivial
        | error error => exact rescored

def Punctual (graph : LinkGraph) : Prop := ∀ entity time, graph.stamps entity time → time ≤ graph.lastTick

theorem Punctual.timely (punctual : graph.Punctual) (held : LockTable) : graph.Timely held :=
  fun entity _ => punctual entity

theorem Punctual.placed {prepared : Prepared} {held : LockTable} {reserved : Id} (punctual : graph.Punctual)
    (placed : prepared.Placed held reserved graph after) (within : graph.Within held after) : after.Punctual := by
  obtain ⟨snapshot, places⟩ := placed
  intro entity time bears
  by_cases inside : entity ∈ held.members
  · exact places.timely (punctual.timely held) entity inside time bears
  · rw [within.stamps entity inside] at bears
    exact Int.le_trans (punctual entity time bears) within.lastTick

structure Agrees (graph : LinkGraph) : Prop where
  members : ∀ cluster entity, graph.present cluster entity ↔ graph.pointer entity = some cluster
  timely : ∀ entity time, graph.stamps entity time → time ≤ graph.lastTick

theorem Agrees.rescored (agrees : graph.Agrees) (rescored : graph.Rescored after) : after.Agrees := by
  rw [rescored]
  exact ⟨agrees.members, agrees.timely⟩

theorem Agrees.placed {prepared : Prepared} {held : LockTable} {reserved : Id}
    (agrees : graph.Agrees) (placed : prepared.Placed held reserved graph after)
    (within : graph.Within held after) (known : ∀ entity ∈ prepared.scored, graph.record entity ≠ none)
    (bound : after.lastTick ≤ Membership.latest) : after.Agrees := by
  refine ⟨?_, Punctual.placed agrees.timely placed within⟩
  obtain ⟨snapshot, places⟩ := placed
  have timely : graph.Timely held := Punctual.timely agrees.timely held
  intro cluster entity
  have points : after.pointer entity = _ := congrArg Option.join (places.record entity)
  rw [places.present timely bound, points]
  by_cases joining : entity ∈ prepared.joining snapshot (prepared.cluster reserved snapshot)
  · -- Whoever joins has a record, so that its pointer moves along.
    obtain ⟨before, record⟩ := Option.ne_none_iff_exists'.mp
      (known entity (Prepared.mem_joining.mp joining).1)
    have old := agrees.members cluster entity
    simp only [pointer, record] at old
    simp only [joining, if_true, record, Option.map_some, Option.join_some, Option.some.injEq,
      pointer]
    by_cases here : cluster = prepared.cluster reserved snapshot
    · simp [here]
    · by_cases left : before = some cluster
      · simp [here, Ne.symm here, left]
      · simpa [here, Ne.symm here, left] using old
  · simp only [joining, if_false]
    exact agrees.members cluster entity

end LinkGraph

inductive Upkeep : {α : Type} → Action α → Prop
  | addFeedback (a b : EntityKey) (linked : Bool) : Upkeep (FeedbackService.add a b linked)
  | getFeedback (a b : EntityKey) : Upkeep (FeedbackService.get a b)
  | hasNegative (a b : EntityKey) : Upkeep (FeedbackService.hasNegative a b)
  | feedbackOn (verdict : Verdict) (entity : EntityKey) :
      Upkeep (FeedbackService.onEntity verdict entity)
  | positivePairs (entity : EntityKey) : Upkeep (FeedbackService.positivePairs entity)
  | allFeedback : Upkeep FeedbackService.all
  | deleteFeedbackInSet (set : Id) (keys : Option IdSet) :
      Upkeep (FeedbackService.deleteInSet set keys)
  | deleteFeedbackOn (entity : EntityKey) : Upkeep (FeedbackService.deleteOn entity)
  | deleteEdge (link : Link) : Upkeep (ClusterGraph.deleteEdge link)
  | deleteNeighborhood (entity : EntityKey) (kept : PairSet) :
      Upkeep (ClusterGraph.deleteNeighborhood entity kept)
  | deleteNeighborhoods (set : Id) (keys : IdSet) :
      Upkeep (ClusterGraph.deleteNeighborhoods set keys)
  | deleteSet (set : Id) : Upkeep (ClusterGraph.deleteSet set)

theorem Upkeep.keepsMembers {α : Type} {action : Action α} (upkeep : Upkeep action) :
    action.Asks True Call.KeepsMembers fun _ => True := by
  have looks : action.Looks True (fun _ => True) → action.Asks True Call.KeepsMembers fun _ => True :=
    fun asks => Action.Asks.allow asks fun _ => Call.Looks.keepsMembers
  have removes : action.Removes (fun _ => True) → action.Asks True Call.KeepsMembers fun _ => True :=
    fun asks => Action.Asks.allow asks fun _ => Call.Removes.keepsMembers
  cases upkeep with
  | addFeedback a b linked => exact removes (Action.removes_add a b linked)
  | getFeedback a b => exact looks (Action.asks_get (fun _ => trivial) (fun _ => trivial) a b)
  | hasNegative a b => exact looks (Action.asks_hasNegative (fun _ => trivial) (fun _ => trivial) a b)
  | feedbackOn verdict entity => exact looks (Action.looks_onEntity verdict entity)
  | positivePairs entity => exact looks (Action.looks_positivePairs entity)
  | allFeedback => exact Action.asks_read trivial
  | deleteFeedbackInSet | deleteFeedbackOn => exact removes (Action.removes_deleteFeedback trivial)
  | deleteEdge link => exact removes (Action.removes_deleteEdge link)
  | deleteNeighborhood entity kept => exact removes (Action.removes_deleteNeighborhood entity kept)
  | deleteNeighborhoods set keys => exact removes (Action.removes_deleteNeighborhoods set keys)
  | deleteSet set => exact removes (Action.removes_deleteSet set)

namespace System

def Offers (system : System) : (call : Call) → call.Answer → Prop
  | .host (.loadMany set _), answer => ∀ entity properties,
      .ok (entity, properties) ∈ Loaded.ofAnswer set answer → entity ∈ system.index
  | _, _ => True

def AnswersKnown : Answering System := fun system call answer after =>
  Answers True system call answer after ∧ system.Offers call answer

def AnswersUnflushed : Answering System := fun system call answer after =>
  Answers True system call answer after ∧ call.Unflushed answer

/-- One operation that comes to its end. A pass links an entity that is known to the index and is offered
such entities only, or it fails and writes no edges. -/
inductive Maintains : System → System → Prop
  | link (linker : Linker) (focal : EntityKey) {before after : System} {outcome : LinkOutcome} :
      focal ∈ before.index →
      Program.Runs AnswersKnown (linker.link focal).run before (.ok outcome) after →
      Maintains before after
  | failed (linker : Linker) (focal : EntityKey) {before after : System} {error : LinkError} :
      Program.Runs AnswersUnflushed (linker.link focal).run before (.error error) after →
      Maintains before after
  | upkeep {α : Type} {action : Action α} {before after : System} {result : Except LinkError α} :
      Upkeep action → Program.Runs (System.Answers True) action.run before result after →
      Maintains before after
  | recordWrite (entity : EntityKey) (writtenAt : Instant) (system : System) :
      Maintains system { system with index := system.index.recordWrite entity writtenAt }
  | tombstone (entity : EntityKey) (system : System) :
      Maintains system { system with index := (system.index.tombstone entity).2 }

def membersOf (system : System) (cluster : Id) : Members :=
  Membership.fold (system.store.tables.log.entriesFor cluster) Membership.latest

def pointer (system : System) (entity : EntityKey) : Option Id :=
  system.index[entity]?.bind IndexRecord.cluster

theorem latest_eq (system : System) (cluster : Id) :
    (MembershipLog.latest cluster).run.run answer? system =
      (.done (.ok (system.membersOf cluster)), system) := rfl

theorem pointer_eq (system : System) (entity : EntityKey) :
    (ClusterGraph.pointer entity).run.run answer? system =
      (.done (.ok (system.pointer entity)), system) := rfl

variable {before after : System} {graph : LinkGraph}

theorem Depicts.pointer (depicted : before.Depicts graph) (entity : EntityKey) :
    graph.pointer entity = before.pointer entity := by
  rw [LinkGraph.pointer, depicted.record, System.pointer]
  cases before.index[entity]? <;> rfl

theorem Depicts.present (depicted : before.Depicts graph) (cluster : Id) (entity : EntityKey) :
    graph.present cluster entity = (before.membersOf cluster).has entity := by
  rw [depicted.shown]
  rfl

theorem known_of_prepare {linker : Linker} {focal : EntityKey} {prepared : Prepared}
    (known : focal ∈ before.index)
    (run : Program.Runs AnswersKnown (linker.prepare focal).run before (.ok (.inr prepared)) after) :
    ∀ entity ∈ prepared.scored, entity ∈ before.index := by
  let testimony : Testimony :=
    ⟨fun _ _ => True, fun _ _ _ => True, fun _ _ entity => entity ∈ before.index, fun _ _ _ _ _ _ => trivial⟩
  have hears : (linker.prepare focal).Hears testimony _ := linker.hears_prepare focal
  obtain ⟨_, _, heard⟩ := run.simulated hears (fun system _ => system.index = before.index) rfl (by
    rintro system _ call answer after same allowed ⟨answered, offers⟩
    refine ⟨(), ?_, ((answered.1).looked allowed.looks).2.trans same⟩
    unfold Testimony.Answers
    split
    · trivial
    · trivial
    · trivial
    · intro entity properties sent
      have member : entity ∈ system.index := offers entity properties sent
      rwa [same] at member
    · trivial)
  obtain ⟨rfl, backs⟩ := heard prepared rfl
  intro entity accepted
  rcases backs.scored entity accepted with rfl | ⟨set, keys, loads, _⟩
  · exact known
  · exact loads

theorem agrees_of_link {linker : Linker} {focal : EntityKey} {outcome : LinkOutcome}
    (depicted : before.Depicts graph) (known : focal ∈ before.index)
    (run : Program.Runs AnswersKnown (linker.link focal).run before (.ok outcome) after) :
    ∃ image, after.Depicts image ∧
      (after.lastTick ≤ Membership.latest → graph.Agrees → image.Agrees) := by
  rw [linker.link_eq] at run
  rcases Action.runs_bind run with ⟨_, failed, _⟩ | ⟨found, middle, first, second⟩
  · cases failed
  have answered : ∀ system call answer after, AnswersKnown system call answer after →
      Answers True system call answer after := fun _ _ _ _ => And.left
  obtain ⟨_, looked, rfl, sound⟩ :=
    depicted.runs (first.mono answered) (LinkGraph.ensures_looks (linker.looks_prepare focal))
  cases found with
  | inl skipped =>
      cases second with
      | done => exact ⟨_, looked, fun _ => id⟩
  | inr prepared =>
      obtain ⟨image, placed, held, reserved, snapshot, _, places, within⟩ :=
        looked.runs (second.mono answered) (LinkGraph.ensures_finish sound)
      refine ⟨image, placed, fun bound agrees => ?_⟩
      refine agrees.placed ⟨snapshot, places⟩ within ?_ (placed.bounded bound)
      intro entity accepted
      have member := known_of_prepare known first entity accepted
      simpa only [depicted.record, ne_eq, Option.map_eq_none_iff, ← Std.ExtTreeMap.isSome_getElem?_iff_mem,
        Option.isSome_iff_ne_none] using member

theorem rescored_of_failed {linker : Linker} {focal : EntityKey} {error : LinkError}
    (depicted : before.Depicts graph)
    (run : Program.Runs AnswersUnflushed (linker.link focal).run before (.error error) after) :
    ∃ image, after.Depicts image ∧ graph.Rescored image := by
  refine run.simulated LinkGraph.rescored_of_unflushed Depicts depicted ?_
  rintro system graph call answer after depicted _ ⟨answered, unflushed⟩
  obtain ⟨image, given, depicted⟩ := depicted.answered answered
  exact ⟨image, ⟨given, unflushed⟩, depicted⟩

theorem agrees_of_maintains (maintains : Maintains before after) (depicted : before.Depicts graph) :
    ∃ image, after.Depicts image ∧
      (after.lastTick ≤ Membership.latest → graph.Agrees → image.Agrees) := by
  cases maintains with
  | link linker focal known run => exact agrees_of_link depicted known run
  | failed linker focal run =>
      obtain ⟨image, depicts, rescored⟩ := rescored_of_failed depicted run
      exact ⟨image, depicts, fun _ agrees => agrees.rescored rescored⟩
  | @upkeep _ _ _ _ result upkeep run =>
      obtain ⟨image, depicts, holds⟩ := depicted.runs run
        (LinkGraph.ensures_rescored upkeep.keepsMembers (fun _ => id) fun _ _ _ _ => id)
      have rescored : graph.Rescored image := by
        cases result with
        | ok value => exact holds.1
        | error error => exact holds
      exact ⟨image, depicts, fun _ agrees => agrees.rescored rescored⟩
  | recordWrite entity writtenAt =>
      obtain ⟨record, depicts, pointer⟩ :=
        depicted.reindexed (before.index.cluster_recordWrite entity writtenAt)
      refine ⟨_, depicts, fun _ agrees => ⟨?_, agrees.timely⟩⟩
      intro cluster entity
      exact (agrees.members cluster entity).trans (by rw [← pointer]; rfl)
  | tombstone entity =>
      obtain ⟨record, depicts, pointer⟩ :=
        depicted.reindexed (before.index.cluster_tombstone entity)
      refine ⟨_, depicts, fun _ agrees => ⟨?_, agrees.timely⟩⟩
      intro cluster entity
      exact (agrees.members cluster entity).trans (by rw [← pointer]; rfl)

theorem elapses_of_maintains (maintains : Maintains before after) : before.Elapses after := by
  cases maintains with
  | link linker focal known run => exact elapses_of_runs (run.mono fun _ _ _ _ => And.left)
  | failed linker focal run => exact elapses_of_runs (run.mono fun _ _ _ _ => And.left)
  | upkeep upkeep run => exact elapses_of_runs run
  | recordWrite | tombstone => exact elapses_of_eq rfl rfl

theorem agrees_empty (depicted : before.Depicts graph) (empty : before.store.tables = .empty)
    (unlinked : ∀ entity, before.pointer entity = none) : graph.Agrees where
  members := by
    intro cluster entity
    have none : before.store.tables.log.entriesFor cluster = [] := by
      simp [empty, Tables.empty, LogTable.empty, LogTable.entriesFor]
    rw [depicted.present, depicted.pointer, unlinked, membersOf, none, Membership.has_fold,
      Membership.presence_nil]
    simp
  timely := by
    rw [depicted.shown]
    rintro entity time ⟨cluster, entry, listed, _⟩
    simp [empty, Tables.empty, LogTable.empty, LogTable.entriesFor] at listed

/-- From empty tables the log and the link pointers agree after each operation, whatever the wall clock
shows, as long as the clock is not read so often that the times of the log run out of bits. So no
entity is in two clusters. -/
theorem members_agree_with_pointers {start : System} (empty : start.store.tables = .empty)
    (unlinked : ∀ entity, start.pointer entity = none) (fresh : start.lastTick = 0)
    (maintained : Relation.ReflTransGen Maintains start after)
    (readings : after.readings ≤ start.readings + 10 ^ 18) :
    (∀ cluster, ∃ members,
      ((MembershipLog.latest cluster).run.run answer? after).1 = .done (.ok members) ∧
      ∀ entity, members.has entity ↔ after.pointer entity = some cluster) ∧
    ∀ entity cluster other, (after.membersOf cluster).has entity →
      (after.membersOf other).has entity → cluster = other := by
  have agreed : start.Elapses after ∧ ∃ graph, after.Depicts graph ∧
      (after.readings ≤ start.readings + 10 ^ 18 → graph.Agrees) := by
    clear readings
    induction maintained with
    | refl =>
        have sound : start.store.tables.matched.Sound := by
          rw [empty]
          exact MatchTable.sound_empty
        have depicted := depicts_self sound
        exact ⟨elapses_of_eq rfl rfl, _, depicted, fun _ => agrees_empty depicted empty unlinked⟩
    | tail _ maintains ih =>
        obtain ⟨elapsed, graph, depicted, agrees⟩ := ih
        have later := elapses_of_maintains maintains
        have total := elapsed.trans later
        obtain ⟨image, depicts, keeps⟩ := agrees_of_maintains maintains depicted
        refine ⟨total, image, depicts, fun readings => keeps ?_ (agrees ?_)⟩
        · have tick := total.lastTick
          have count := total.readings
          simp only [fresh, Membership.latest] at tick ⊢
          omega
        · exact Nat.le_trans later.readings readings
  obtain ⟨_, graph, depicted, agrees⟩ := agreed
  have same : ∀ cluster entity,
      (after.membersOf cluster).has entity ↔ after.pointer entity = some cluster := by
    intro cluster entity
    rw [← depicted.present, ← depicted.pointer]
    exact (agrees readings).members cluster entity
  refine ⟨fun cluster => ⟨after.membersOf cluster, rfl, same cluster⟩, ?_⟩
  intro entity cluster other here there
  have points := (same cluster entity).mp here
  rw [(same other entity).mp there] at points
  exact (Option.some.inj points).symm

theorem MayAnswer.mem_index {call : Call} {answer : call.Answer} {entity : EntityKey}
    (possible : before.MayAnswer call answer after) (member : entity ∈ before.index) :
    entity ∈ after.index := by
  cases call with
  | index request =>
      cases answer with
      | error error => exact possible ▸ member
      | ok answer =>
          obtain ⟨_, rfl⟩ := possible
          cases request with
          | setCluster other cluster linkedAt =>
              simp only [Index.answer, Index.setCluster]
              split
              · exact member
              · exact Std.ExtTreeMap.mem_insert.mpr (.inr member)
          | _ => exact member
  | _ =>
      rw [possible.fixes.index (by simp)]
      exact member

end System

namespace Sample

def loader : Host
  | .loadMany other _ => .ok (if other = set then [.ok (right.key, properties)] else [])
  | call => host call

def introduced : System :=
  { start with
    host := loader
    index := (start.index.recordWrite left noon).recordWrite right noon }

def joined : System := ((linker.link left).run.run System.answer? introduced).2

def Loading (system : System) : Prop := system.host = loader ∧ right ∈ system.index

theorem Loading.offers {system after : System} {call : Call} {answer : call.Answer}
    (loading : Loading system) (answered : system.answer? call = some (answer, after)) :
    system.Offers call answer := by
  cases call with
  | host request =>
      cases request with
      | loadMany other keys =>
          simp only [System.answer?, loading.1, loader, Option.some.injEq, Prod.mk.injEq] at answered
          rw [← answered.1]
          intro entity values sent
          split at sent
          · rename_i same
            subst same
            simp only [Loaded.ofAnswer, Loaded.ofStream, List.mem_singleton, Except.ok.injEq,
              Prod.mk.injEq] at sent
            rw [sent.1]
            exact loading.2
          · simp [Loaded.ofAnswer, Loaded.ofStream] at sent
      | _ => trivial
  | _ => trivial

theorem maintains_joined :
    Relation.ReflTransGen System.Maintains { start with host := loader } joined := by
  refine .tail (.tail (.single (.recordWrite left noon _)) (.recordWrite right noon _)) ?_
  have ended : ((linker.link left).run.run System.answer? introduced).1.result?.any Except.isOk := by
    decide +kernel
  have known : ∀ entity, entity = left ∨ entity = right → entity ∈ introduced.index := by
    rintro entity (rfl | rfl) <;> simp [introduced, Index.recordWrite]
  have loading : Loading introduced := ⟨rfl, known right (.inr rfl)⟩
  obtain ⟨result, same, ok⟩ := (Option.any_eq_true _ _).mp ended
  cases result with
  | error error => contradiction
  | ok outcome =>
      refine .link linker left (known left (.inl rfl)) ((Program.runs_of_result same).mono_of loading ?_)
      intro system call answer after loading answered
      have possible := System.mayAnswer_of_answer? answered
      exact ⟨⟨⟨possible, .inr trivial⟩, loading.offers answered⟩,
        possible.fixes.host.trans loading.1, possible.mem_index loading.2⟩

/-- After a pass that joins two entities the log and their pointers agree. -/
theorem members_agree_joined :
    Relation.ReflTransGen System.Maintains { start with host := loader } joined ∧
    (joined.pointer left).isSome ∧ joined.pointer right = joined.pointer left ∧
    (∀ cluster, ∃ members,
      ((MembershipLog.latest cluster).run.run System.answer? joined).1 = .done (.ok members) ∧
      ∀ entity, members.has entity ↔ joined.pointer entity = some cluster) ∧
    ∀ entity cluster other, (joined.membersOf cluster).has entity →
      (joined.membersOf other).has entity → cluster = other := by
  refine ⟨maintains_joined, by decide +kernel, by decide +kernel, ?_⟩
  exact System.members_agree_with_pointers rfl (fun _ => rfl) rfl maintains_joined (by decide +kernel)

end Sample

end RecordLinkage
