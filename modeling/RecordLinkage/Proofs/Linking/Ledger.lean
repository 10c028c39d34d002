import RecordLinkage.Proofs.Ascending
import RecordLinkage.Proofs.Linking.Calls
import RecordLinkage.Proofs.Membership.Clock

/-! The tables, the index and the log clock to the letter: a call that goes through does just what it says, and
nothing else does anything. What the part of a pass under its locks makes of them. -/

namespace RecordLinkage

structure Ledger where
  tables : Tables
  index : Index
  lastTick : Int

def MatchTable.graph (table : MatchTable) : LinkGraph :=
  LinkGraph.withTable ⟨fun _ => ∅, fun _ => none, fun _ _ => false, fun _ _ => False, 0⟩ table

def IndexRecord.linked (record : IndexRecord) (cluster : Id) (linkedAt : Instant) : IndexRecord :=
  { record with cluster := some cluster, lastLink := some linkedAt }

namespace Ledger

def pointer (ledger : Ledger) (entity : EntityKey) : Option Id :=
  ledger.index[entity]?.bind IndexRecord.cluster

def Writes (ledger : Ledger) : Write → Written → Ledger → Prop
  | .deleteEntriesInSet _ _, _, _ => True
  | .deleteEntriesOf _ _, _, _ => True
  | request, written, after =>
      written = (ledger.tables.write request).1 ∧ after = { ledger with tables := (ledger.tables.write request).2 }

def Answers (times : Instant → Prop) : Answering Ledger := fun ledger call answer after =>
  match call, answer with
  | .read request, .ok answer => answer = ledger.tables.read request ∧ after = ledger
  | .write request, .ok written => ledger.Writes request written after
  | .index request, .ok answer =>
      answer = (ledger.index.answer request).1 ∧ after = { ledger with index := (ledger.index.answer request).2 }
  | .tick, time => ledger.lastTick < time ∧ 1 ≤ time ∧ after = { ledger with lastTick := time }
  | .now, now => times now ∧ after = ledger
  | _, _ => after = ledger

end Ledger

/-- A change without rows does nothing, unless it is one of the log. -/
theorem Tables.apply_of_isEmpty {tables : Tables} {change : Change} (empty : change.isEmpty)
    (plain : ∀ cluster entries, change ≠ .removeEntries cluster entries) :
    (tables.apply change).2 = tables := by
  cases change with
  | removeEntries cluster entries => exact absurd rfl (plain cluster entries)
  | upsertFeedback => cases empty
  | _ => rw [List.isEmpty_iff.mp empty]; rfl

namespace System

def ledger (system : System) : Ledger := ⟨system.store.tables, system.index, system.lastTick⟩

variable {system after : System} {times : Instant → Prop} {call : Call} {answer : call.Answer}

theorem MayAnswer.writes {request : Write} {written : Written}
    (possible : system.MayAnswer (.write request) (.ok written) after) :
    system.ledger.Writes request written after.ledger := by
  obtain ⟨disk, store, wrote, rfl⟩ := possible.written
  obtain ⟨rfl, _⟩ := Store.written_of_write wrote
  have tables (plain : ∀ cluster entries, system.store.tables.plan request ≠ .removeEntries cluster entries) :
      store.tables = (system.store.tables.write request).2 := by
    rcases Store.tables_of_write wrote with same | ⟨none, same⟩
    · exact same
    · exact same.trans (Tables.apply_of_isEmpty none plain).symm
  cases request with
  | deleteEntriesInSet | deleteEntriesOf => trivial
  | _ => exact ⟨rfl, congrArg (Ledger.mk · system.index system.lastTick) (tables nofun)⟩

theorem MayAnswer.ledger (possible : system.MayAnswer call answer after) (clock : times system.now) :
    Ledger.Answers times system.ledger call answer after.ledger := by
  cases call with
  | host => exact possible ▸ rfl
  | read =>
      cases answer with
      | ok => exact ⟨possible.1, possible.2 ▸ rfl⟩
      | error => exact possible ▸ rfl
  | write =>
      cases answer with
      | ok => exact possible.writes
      | error =>
          obtain ⟨tables, lastTick⟩ := possible.refused
          simp only [Ledger.Answers, System.ledger, tables, lastTick, possible.fixes.index (by simp)]
  | index request =>
      cases answer with
      | ok =>
          obtain ⟨rfl, rfl⟩ := possible
          exact ⟨rfl, rfl⟩
      | error => cases request <;> exact possible ▸ rfl
  | feedbackCache | typeCache | setsCache =>
      obtain ⟨_, _, rfl⟩ := possible
      rfl
  | lock =>
      simp only [MayAnswer, answer?, Option.map_eq_some_iff, Prod.mk.injEq] at possible
      obtain ⟨_, _, _, rfl⟩ := possible
      rfl
  | now =>
      simp only [MayAnswer, answer?, Option.some.injEq, Prod.mk.injEq] at possible
      obtain ⟨rfl, rfl⟩ := possible
      exact ⟨clock, rfl⟩
  | tick =>
      simp only [MayAnswer, answer?, Option.some.injEq, Prod.mk.injEq] at possible
      obtain ⟨rfl, rfl⟩ := possible
      exact ⟨Membership.lt_tick _ _, Membership.one_le_tick _ _, rfl⟩
  | drawId =>
      simp only [MayAnswer, answer?, Option.some.injEq, Prod.mk.injEq] at possible
      obtain ⟨rfl, rfl⟩ := possible
      rfl

/-- What a program does to the ledger it does to that of a system. -/
theorem ensures_ledger {α : Type} {answers : Answering System} {post : α → Ledger → Prop} {program : Program α}
    (possible : ∀ system call answer after, answers system call answer after → system.MayAnswer call answer after)
    (clock : ∀ reading, system.readings ≤ reading → times (system.clock reading))
    (ensured : program.Ensures (Ledger.Answers times) (fun _ _ => True) post system.ledger) :
    program.Ensures answers (fun _ _ => True) (fun value after => post value after.ledger ∧
      ∀ reading, after.readings ≤ reading → times (after.clock reading)) system := by
  refine (ensured.simulate
    (fun now image => now.ledger = image ∧ ∀ reading, now.readings ≤ reading → times (now.clock reading))
    ⟨rfl, clock⟩ (fun _ _ _ _ _ => trivial) ?_).mono ?_
  · rintro now _ call answer after ⟨rfl, clock⟩ _ answered
    have given := possible _ _ _ _ answered
    have elapses : now.Elapses after := @elapses_of_answers _ _ True _ _ ⟨given, .inr trivial⟩
    refine ⟨_, given.ledger (clock _ (Nat.le_refl _)), rfl, fun reading later => ?_⟩
    rw [given.fixes.clock]
    exact clock reading (Nat.le_trans elapses.readings later)
  · rintro value after ⟨_, ⟨rfl, clock⟩, holds⟩
    exact ⟨holds, clock⟩

end System

namespace Members

theorem ascending_entities (members : Members) : Ascending id members.entities := by
  refine List.pairwise_flatMap.mpr ⟨fun group _ => ?_, ?_⟩
  · refine List.Pairwise.map _ ?_ group.2.ordered_toList
    intro a b less
    change (compare group.1 group.1).then (compare a b) = .lt
    rw [Std.ReflOrd.compare_self, less]
    rfl
  · refine Std.ExtTreeMap.ordered_keys_toList.imp ?_
    intro a b less entity first other second
    obtain ⟨_, _, rfl⟩ := List.mem_map.mp first
    obtain ⟨_, _, rfl⟩ := List.mem_map.mp second
    change (compare a.1 b.1).then _ = .lt
    rw [less]
    rfl

theorem entities_ofEntities {list : List EntityKey} (ascending : Ascending id list) :
    (ofEntities list).entities = list :=
  (ascending_entities _).eq_of_mem_iff ascending fun _ => mem_entities.trans has_ofEntities

theorem entities_single (entity : EntityKey) : (single entity).entities = [entity] :=
  (ascending_entities _).eq_of_mem_iff (List.pairwise_singleton _ _) fun other => by
    rw [mem_entities, has_single, List.mem_singleton, eq_comm]

end Members

inductive Departs : Int → List (Id × EntityKey) → List LogEntry → Int → Prop
  | none (last : Int) : Departs last [] [] last
  | next {last time final : Int} {cluster : Id} {entity : EntityKey} {leaving : List (Id × EntityKey)}
      {entries : List LogEntry} : last < time → 1 ≤ time → Departs time leaving entries final →
      Departs last ((cluster, entity) :: leaving) (⟨cluster, entity, .ofInt (-time)⟩ :: entries) final

theorem Departs.append {last middle final : Int} {leaving later : List (Id × EntityKey)}
    {entries others : List LogEntry} (first : Departs last leaving entries middle)
    (rest : Departs middle later others final) : Departs last (leaving ++ later) (entries ++ others) final := by
  induction first with
  | none => exact rest
  | next after start _ ih => exact .next after start (ih rest)

theorem LogTable.append_append (table : LogTable) (entries others : List LogEntry) :
    table.append (entries ++ others) = (table.append entries).append others := List.foldl_append

namespace Ledger

variable {times : Instant → Prop} {ledger middle after : Ledger} {cluster : Id} {entity : EntityKey}
  {entities : List EntityKey}

def leaving (ledger : Ledger) (cluster : Id) (entities : List EntityKey) : List (Id × EntityKey) :=
  entities.filterMap fun entity => ((ledger.pointer entity).filter (· ≠ cluster)).map (·, entity)

def Points (times : Instant → Prop) (cluster : Id) (entities : List EntityKey) (index after : Index) : Prop :=
  ∀ entity : EntityKey, (entity ∉ entities → after[entity]? = index[entity]?) ∧
    (entity ∈ entities → ∃ linkedAt, times linkedAt ∧
      after[entity]? = index[entity]?.map fun record => record.linked cluster linkedAt)

structure Moved (times : Instant → Prop) (cluster : Id) (entities : List EntityKey) (ledger after : Ledger) :
    Prop where
  matched : after.tables.matched = ledger.tables.matched
  feedback : after.tables.feedback = ledger.tables.feedback
  index : Points times cluster entities ledger.index after.index
  log : ∃ entries, Departs ledger.lastTick (ledger.leaving cluster entities) entries after.lastTick ∧
    after.tables.log = ledger.tables.log.append entries

theorem points_setCluster {linkedAt : Instant} (shown : times linkedAt) (index : Index) :
    Points times cluster [entity] index (index.setCluster entity cluster linkedAt).2 := by
  intro other
  rw [Index.getElem?_setCluster, List.mem_singleton]
  exact ⟨fun apart => if_neg (Ne.symm apart), fun same => ⟨linkedAt, shown, if_pos same.symm⟩⟩

theorem Points.pointer (points : Points times cluster entities ledger.index middle.index)
    (apart : entity ∉ entities) : middle.pointer entity = ledger.pointer entity := by
  rw [Ledger.pointer, (points entity).1 apart]
  rfl

theorem Points.cons {index between last : Index} (fresh : entity ∉ entities)
    (first : Points times cluster [entity] index between) (rest : Points times cluster entities between last) :
    Points times cluster (entity :: entities) index last := by
  intro other
  by_cases same : other = entity
  · subst same
    rw [(rest other).1 fresh]
    exact ⟨fun out => absurd (.head _) out, fun _ => (first other).2 (.head _)⟩
  · rw [← (first other).1 (by simpa using same)]
    exact ⟨fun out => (rest other).1 fun listed => out (.tail _ listed),
      fun listed => (rest other).2 ((List.mem_cons.mp listed).resolve_left same)⟩

theorem leaving_cons (ledger : Ledger) (cluster : Id) (entity : EntityKey) (entities : List EntityKey) :
    ledger.leaving cluster (entity :: entities) =
      ledger.leaving cluster [entity] ++ ledger.leaving cluster entities :=
  @List.filterMap_append _ _ [entity] entities _

theorem moved_none (ledger : Ledger) : ledger.Moved times cluster [] ledger where
  matched := rfl
  feedback := rfl
  index _ := ⟨fun _ => rfl, fun listed => absurd listed List.not_mem_nil⟩
  log := ⟨[], .none _, rfl⟩

theorem Moved.cons (fresh : entity ∉ entities) (first : ledger.Moved times cluster [entity] middle)
    (rest : middle.Moved times cluster entities after) : ledger.Moved times cluster (entity :: entities) after where
  matched := rest.matched.trans first.matched
  feedback := rest.feedback.trans first.feedback
  index := first.index.cons fresh rest.index
  log := by
    obtain ⟨entries, departs, same⟩ := first.log
    obtain ⟨others, departs', same'⟩ := rest.log
    have leaving : middle.leaving cluster entities = ledger.leaving cluster entities := by
      refine List.filterMap_congr fun other listed => ?_
      rw [first.index.pointer fun own => fresh (List.mem_singleton.mp own ▸ listed)]
    refine ⟨entries ++ others, ?_, ?_⟩
    · rw [leaving_cons, ← leaving]
      exact departs.append departs'
    · rw [same', same, LogTable.append_append]

end Ledger

namespace Action

variable {α β : Type} {times : Instant → Prop} {ledger : Ledger} {cluster : Id} {entity : EntityKey}

abbrev Does (times : Instant → Prop) (post : α → Ledger → Prop) (action : Action α) (ledger : Ledger) : Prop :=
  action.Ensures (Ledger.Answers times) (fun _ _ => True) (fun _ _ => True) post ledger

theorem does_read {request : Read} {post : request.Answer → Ledger → Prop}
    (holds : post (ledger.tables.read request) ledger) : (Action.read request).Does times post ledger := by
  refine ⟨trivial, ?_⟩
  rintro (error | answer) after answered
  · trivial
  · obtain ⟨rfl, rfl⟩ := answered
    exact holds

theorem does_write {request : Write} {post : Written → Ledger → Prop}
    (holds : ∀ written after, ledger.Writes request written after → post written after) :
    (Action.write request).Does times post ledger := by
  refine ⟨trivial, ?_⟩
  rintro (error | written) after answered
  · trivial
  · exact holds written after answered

theorem does_pointer {post : Option Id → Ledger → Prop} (holds : post (ledger.pointer entity) ledger) :
    (ClusterGraph.pointer entity).Does times post ledger := by
  refine (ensures_bind _ _ _).mpr ⟨trivial, ?_⟩
  rintro (error | record) after answered
  · trivial
  · obtain ⟨rfl, rfl⟩ := answered
    exact holds

theorem does_setPointer {post : Nat → Ledger → Prop} (holds : ∀ linkedAt count, times linkedAt →
      post count { ledger with index := (ledger.index.setCluster entity cluster linkedAt).2 }) :
    (ClusterGraph.setPointer cluster entity).Does times post ledger := by
  refine (ensures_bind _ _ _).mpr ((ensures_lift _ _).mpr ⟨trivial, ?_⟩)
  rintro linkedAt _ ⟨shown, rfl⟩
  refine ⟨trivial, ?_⟩
  rintro (error | count) after answered
  · trivial
  · obtain ⟨rfl, rfl⟩ := answered
    exact holds linkedAt _ shown

theorem does_clustersContaining {entities : EntitySet} {post : IdSet → Ledger → Prop}
    (sound : ledger.tables.matched.Sound)
    (holds : ∀ ids : IdSet, (∀ cluster, cluster ∈ ids ↔
      ∃ entity ∈ entities, ledger.tables.matched.graph.Touches cluster entity) → post ids ledger) :
    (ClusterGraph.clustersContaining entities).Does times post ledger := by
  unfold ClusterGraph.clustersContaining
  split
  · rename_i none
    refine (ensures_pure _ _).mpr (holds ∅ fun cluster => ?_)
    rw [Std.ExtTreeSet.isEmpty_iff.mp none]
    simp
  · exact does_read (holds _ (LinkGraph.reads_withTable _ sound (.clustersContaining entities)))

theorem does_clusters {ids : IdSet} {post : Linking.Snapshot → Ledger → Prop}
    (sound : ledger.tables.matched.Sound)
    (holds : ∀ loaded, ledger.tables.matched.graph.Reads (.loadClusters ids) loaded → post loaded ledger) :
    (ClusterGraph.clusters ids).Does times post ledger := by
  unfold ClusterGraph.clusters
  split
  · rename_i none
    refine (ensures_pure _ _).mpr (holds ∅ fun cluster => ?_)
    rw [Std.ExtTreeSet.isEmpty_iff.mp none]
    exact ⟨fun listed => absurd listed Std.ExtTreeSet.not_mem_empty, fun _ => Std.ExtTreeMap.getElem?_empty⟩
  · exact does_read (holds _ (LinkGraph.reads_withTable _ sound (.loadClusters ids)))

theorem does_deleteNeighborhoodIn {transaction : Transaction} {kept : PairSet} {post : Nat → Ledger → Prop}
    (sound : ledger.tables.matched.Sound)
    (holds : ∀ count, post count { ledger with
      tables := (ledger.tables.write (.deleteTouching entity kept)).2 }) :
    (ClusterGraph.deleteNeighborhoodIn transaction entity kept).Does times post ledger := by
  unfold ClusterGraph.deleteNeighborhoodIn
  split
  · exact (ensures_bind _ _ _).mpr ((ensures_throw _ _).mpr trivial)
  · refine (ensures_bind _ _ _).mpr (does_clustersContaining sound fun ids _ => ?_)
    split
    · exact (ensures_throw _ _).mpr trivial
    · refine (ensures_bind _ _ _).mpr (does_write ?_)
      rintro written _ ⟨_, rfl⟩
      exact (ensures_pure _ _).mpr (holds _)

theorem does_flush {transaction : Transaction} {post : Nat → Ledger → Prop} (filled : transaction.staged ≠ [])
    (holds : ∀ writtenAt, times writtenAt → post transaction.staged.length { ledger with
      tables := (ledger.tables.write (.upsertEdges transaction.staged writtenAt)).2 }) :
    transaction.flush.Does times post ledger := by
  unfold Transaction.flush
  rw [if_neg (by simpa using filled)]
  refine (ensures_bind _ _ _).mpr ((ensures_lift _ _).mpr ⟨trivial, ?_⟩)
  rintro writtenAt _ ⟨shown, rfl⟩
  refine (ensures_bind _ _ _).mpr (does_write ?_)
  rintro written _ ⟨rfl, rfl⟩
  exact (ensures_pure _ _).mpr (holds writtenAt shown)

theorem does_record {members : Members} {stamp : Int} {post : Nat → Ledger → Prop}
    (holds : ∀ count, post count { ledger with
      tables := (ledger.tables.write (.appendEntries (Membership.entries cluster members (.ofInt stamp)))).2 }) :
    (MembershipLog.record cluster members stamp).Does times post ledger := by
  unfold MembershipLog.record
  split
  · rename_i none
    rw [none] at holds
    exact (ensures_pure _ _).mpr (holds 0)
  · refine (ensures_bind _ _ _).mpr (does_write ?_)
    rintro written _ ⟨_, rfl⟩
    exact (ensures_pure _ _).mpr (holds _)

theorem does_join {members : Members} {post : Nat → Ledger → Prop}
    (holds : ∀ count time, ledger.lastTick < time → 1 ≤ time → post count { ledger with
      tables := (ledger.tables.write (.appendEntries (Membership.entries cluster members (.ofInt time)))).2
      lastTick := time }) : (MembershipLog.join cluster members).Does times post ledger := by
  refine (ensures_bind _ _ _).mpr ((ensures_lift _ _).mpr ⟨trivial, ?_⟩)
  rintro time _ ⟨later, start, rfl⟩
  exact does_record fun count => holds count time later start

theorem does_leave {members : Members} {post : Nat → Ledger → Prop}
    (holds : ∀ count time, ledger.lastTick < time → 1 ≤ time → post count { ledger with
      tables := (ledger.tables.write (.appendEntries (Membership.entries cluster members (.ofInt (-time))))).2
      lastTick := time }) : (MembershipLog.leave cluster members).Does times post ledger := by
  refine (ensures_bind _ _ _).mpr ((ensures_lift _ _).mpr ⟨trivial, ?_⟩)
  rintro time _ ⟨later, start, rfl⟩
  exact does_record fun count => holds count time later start

theorem does_move : (Linking.move cluster entity (ledger.pointer entity)).Does times
    (fun _ after => ledger.Moved times cluster [entity] after) ledger := by
  refine (ensures_bind _ _ _).mpr (does_setPointer fun linkedAt _ shown => ?_)
  have points := @Ledger.points_setCluster times cluster entity linkedAt shown ledger.index
  cases before : ledger.pointer entity with
  | none =>
      refine (ensures_pure _ _).mpr ⟨rfl, rfl, points, [], ?_, rfl⟩
      simpa [Ledger.leaving, before] using Departs.none ledger.lastTick
  | some previous =>
      dsimp only
      split
      · rename_i elsewhere
        refine (ensures_bind _ _ _).mpr (does_leave fun _ time later start => ?_)
        refine (ensures_pure _ _).mpr ⟨rfl, rfl, points, _, ?_, rfl⟩
        rw [Membership.entries, Members.entities_single]
        simpa [Ledger.leaving, before, elsewhere] using Departs.next later start (.none time)
      · rename_i here
        refine (ensures_pure _ _).mpr ⟨rfl, rfl, points, [], ?_, rfl⟩
        simpa [Ledger.leaving, before, Classical.not_not.mp here] using Departs.none ledger.lastTick

theorem does_moveAll {focal : EntityKey} {previous : Option Id} {entities : List EntityKey}
    (distinct : entities.Nodup) (before : focal ∈ entities → previous = ledger.pointer focal) :
    (Linking.moveAll focal previous cluster entities).Does times
      (fun _ after => ledger.Moved times cluster entities after) ledger := by
  induction entities generalizing ledger with
  | nil => exact (ensures_pure _ _).mpr (Ledger.moved_none ledger)
  | cons entity entities ih =>
      obtain ⟨fresh, distinct⟩ := List.nodup_cons.mp distinct
      have moves : Does times (fun _ after => ledger.Moved times cluster (entity :: entities) after)
          (do Linking.move cluster entity (ledger.pointer entity)
              Linking.moveAll focal previous cluster entities) ledger := by
        refine (ensures_bind _ _ _).mpr (does_move.mono fun _ middle first => ?_)
        refine (ih distinct fun listed => ?_).mono fun _ after rest => first.cons fresh rest
        rw [first.index.pointer fun same => fresh (List.mem_singleton.mp same ▸ listed)]
        exact before (.tail _ listed)
      unfold Linking.moveAll
      split
      · rename_i same
        subst same
        rw [← before (.head _)] at moves
        exact (ensures_bind _ _ _).mpr ((ensures_pure _ _).mpr moves)
      · exact (ensures_bind _ _ _).mpr (does_pointer moves)

end Action

namespace Prepared

def cleared (prepared : Prepared) (table : MatchTable) : MatchTable :=
  (table.remove (table.planTouching prepared.focal prepared.positive)).2

theorem ascending_joining (prepared : Prepared) (snapshot : Linking.Snapshot) (cluster : Id) :
    Ascending id (prepared.joining snapshot cluster) := by
  have ordered : (prepared.matched snapshot cluster).keys.Pairwise fun a b => compare a b = .lt :=
    Std.ExtTreeMap.ordered_keys
  exact ordered.filter _

structure Enacts (prepared : Prepared) (times : Instant → Prop) (reserved : Id) (snapshot : Linking.Snapshot)
    (ledger : Ledger) (outcome : LinkOutcome) (after : Ledger) : Prop where
  shows : prepared.Shows (prepared.cleared ledger.tables.matched).graph snapshot
  reports : prepared.Reports reserved snapshot outcome
  edgesWritten : outcome.edgesWritten = (prepared.edges snapshot (prepared.cluster reserved snapshot)).length
  matched : ∃ writtenAt, times writtenAt ∧ after.tables.matched = (prepared.cleared ledger.tables.matched).upsert
    (prepared.edges snapshot (prepared.cluster reserved snapshot)) writtenAt
  feedback : after.tables.feedback = ledger.tables.feedback
  index : Ledger.Points times (prepared.cluster reserved snapshot)
    (prepared.joining snapshot (prepared.cluster reserved snapshot)) ledger.index after.index
  log : ∃ entries last, Departs ledger.lastTick (ledger.leaving (prepared.cluster reserved snapshot)
      (prepared.joining snapshot (prepared.cluster reserved snapshot))) entries last ∧
    last < after.lastTick ∧ 1 ≤ after.lastTick ∧
    after.tables.log = ledger.tables.log.append (entries ++
      (prepared.joining snapshot (prepared.cluster reserved snapshot)).map
        (⟨prepared.cluster reserved snapshot, ·, .ofInt after.lastTick⟩))

end Prepared

namespace Call

def Idles : Call → Prop
  | .write _ | .tick => False
  | .index (.setCluster _ _ _) => False
  | _ => True

end Call

theorem Call.Looks.idles {call : Call} (looks : call.Looks) : call.Idles := by
  cases call with
  | index request =>
      cases request with
      | record => trivial
      | _ => exact looks.elim
  | write | tick => exact looks.elim
  | _ => trivial

theorem Ledger.Answers.idle {times : Instant → Prop} {ledger after : Ledger} {call : Call} {answer : call.Answer}
    (answered : Ledger.Answers times ledger call answer after) (idles : call.Idles) : after = ledger := by
  cases call with
  | write | tick => exact idles.elim
  | read => cases answer <;> first | exact answered | exact answered.2
  | now => exact answered.2
  | index request =>
      cases request with
      | setCluster => exact idles.elim
      | _ => cases answer <;> first | exact answered | exact answered.2
  | _ => exact answered

namespace Action

variable {α : Type} {times : Instant → Prop} {ledger : Ledger} {prepared : Prepared}

theorem does_of_asks {post : α → Prop} {action : Action α} (asks : action.Asks True Call.Idles post) :
    action.Does times (fun value after => after = ledger ∧ post value) ledger := by
  have ensured : action.Ensures (Ledger.Answers times) (fun _ _ => True) (fun _ after => after = ledger)
      (fun value after => after = ledger ∧ post value) ledger :=
    asks.ensures (· = ledger) rfl (fun _ _ _ _ => trivial) fun _ _ _ _ same idles answered =>
      (answered.idle idles).trans same
  exact ensured.refuse fun _ _ _ => trivial

theorem does_place {transaction : Transaction} {reserved : Id} (focal : prepared.focal ∈ prepared.scored)
    (sound : ledger.tables.matched.Sound) (own : transaction.reserved = some reserved)
    (staged : transaction.staged = []) :
    (Linking.place transaction prepared.focal prepared.scored prepared.positive).Does times
      (fun outcome after => ∃ snapshot, prepared.Enacts times reserved snapshot ledger outcome after) ledger := by
  unfold Linking.place
  refine (ensures_bind _ _ _).mpr (does_pointer ?_)
  refine (ensures_bind _ _ _).mpr (does_deleteNeighborhoodIn sound fun _ => ?_)
  have soundThen : (prepared.cleared ledger.tables.matched).Sound := sound.remove _
  refine (ensures_bind _ _ _).mpr (does_clustersContaining soundThen fun ids found => ?_)
  refine (ensures_bind _ _ _).mpr (does_clusters soundThen fun snapshot loaded => ?_)
  have shows : prepared.Shows (prepared.cleared ledger.tables.matched).graph snapshot :=
    Prepared.shows_of_reads found loaded
  refine (ensures_bind _ _ _).mpr (ensures_choose prepared own ?_)
  dsimp only
  split
  · exact (ensures_throw _ _).mpr trivial
  rename_i accepted ok
  have edges : accepted.staged = prepared.edges snapshot (prepared.cluster reserved snapshot) := by
    rw [Transaction.stage_ok ok, staged]
    rfl
  have filled : accepted.staged ≠ [] := edges ▸ Prepared.edges_ne_nil focal snapshot _
  refine (ensures_bind _ _ _).mpr (does_flush filled fun writtenAt shown => ?_)
  have distinct := prepared.nodup_joining snapshot (prepared.cluster reserved snapshot)
  refine (ensures_bind _ _ _).mpr ((does_moveAll distinct ?_).mono ?_)
  · exact fun _ => rfl
  intro _ moved moves
  refine (ensures_bind _ _ _).mpr (does_join fun _ time later start => ?_)
  obtain ⟨entries, departs, log⟩ := moves.log
  have joined := Members.entities_ofEntities (prepared.ascending_joining snapshot (prepared.cluster reserved snapshot))
  refine (ensures_pure _ _).mpr ⟨snapshot, shows, ⟨rfl, rfl, rfl, fun entity => ?_⟩, ?_, ⟨writtenAt, shown, ?_⟩,
    moves.feedback, moves.index, entries, moved.lastTick, departs, later, start, ?_⟩
  · simp [Std.ExtTreeMap.mem_keys]
  · rw [edges]
  · exact moves.matched.trans (by rw [edges]; rfl)
  · rw [LogTable.append_append]
    refine (congrArg (LogTable.append · _) log).trans ?_
    exact congrArg (fun list : List EntityKey => (ledger.tables.log.append entries).append
      (list.map (⟨prepared.cluster reserved snapshot, ·, .ofInt time⟩))) joined

theorem does_finish (focal : prepared.focal ∈ prepared.scored) (sound : ledger.tables.matched.Sound) :
    prepared.finish.Does times (fun outcome after => ∃ reserved snapshot,
      prepared.Enacts times reserved snapshot ledger outcome after) ledger := by
  have locks : (ClusterGraph.lockMembers prepared.members).Asks True Call.Idles _ :=
    asks_lockStable _ (fun _ => trivial) (fun _ => trivial) (asks_clustersContaining (fun _ => trivial) _)
  refine (ensures_bind _ _ _).mpr ((does_of_asks locks).mono ?_)
  rintro transaction _ ⟨rfl, staged, draws⟩
  obtain ⟨reserved, own⟩ := Option.isSome_iff_exists.mp (draws rfl)
  rw [prepared.settle_eq]
  refine (ensures_thenAlways _ _ _).mpr (Program.Ensures.mono (does_place focal sound own staged) ?_)
  intro result after ended
  refine (transaction.ensures_release trivial fun _ _ same => same).mono ?_
  rintro _ _ rfl
  cases result with
  | ok outcome => exact ⟨reserved, ended⟩
  | error error => trivial

/-- A pass that skips its focal entity leaves the ledger as it is; any other points the focal entity and those who
join with it at a cluster. -/
theorem does_link (linker : Linker) (focal : EntityKey) (sound : ledger.tables.matched.Sound) :
    (linker.link focal).Does times (fun outcome after => outcome.isSkipped ∧ after = ledger ∨
      outcome.isSkipped = false ∧ ∃ cluster joining, focal ∈ joining ∧
        Ledger.Points times cluster joining ledger.index after.index) ledger := by
  rw [linker.link_eq]
  have looks : (linker.prepare focal).Looks True _ := linker.looks_prepare_of focal
  refine (ensures_bind _ _ _).mpr ((does_of_asks (looks.allow fun _ => Call.Looks.idles)).mono ?_)
  rintro (outcome | prepared) _ ⟨rfl, found, own⟩
  · exact (ensures_pure _ _).mpr (.inl ⟨found, rfl⟩)
  · obtain rfl := own prepared rfl
    refine (does_finish found.focal sound).mono ?_
    rintro outcome after ⟨reserved, snapshot, enacts⟩
    exact .inr ⟨enacts.reports.linked, _, _, Prepared.mem_joining.mpr ⟨found.focal, .inl rfl⟩, enacts.index⟩

end Action

end RecordLinkage
