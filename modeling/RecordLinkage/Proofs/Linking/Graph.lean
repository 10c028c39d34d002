import RecordLinkage.Linking
import RecordLinkage.Proofs.Match.Scores
import RecordLinkage.Proofs.Membership.Fold
import RecordLinkage.Proofs.Program.Answers

/-! What linking looks at and changes: the scores of each cluster, the link pointer of each known entity,
who is in which cluster by the log, and the times that rows of the log bear. Stores, index, log and
clock of a system answer as this graph does. -/

namespace RecordLinkage

structure LinkGraph where
  scores : Id → LinkScores
  record : EntityKey → Option (Option Id)
  present : Id → EntityKey → Bool
  stamps : EntityKey → Int → Prop
  /-- A time that every tick to come is after. -/
  lastTick : Int

namespace LinkGraph

def pointer (graph : LinkGraph) (entity : EntityKey) : Option Id := (graph.record entity).join

def Touches (graph : LinkGraph) (cluster : Id) (entity : EntityKey) : Prop :=
  Touched (graph.scores cluster) entity

def put (graph : LinkGraph) (scored : ScoredEdge) : LinkGraph :=
  { graph with
    scores := fun cluster =>
      if scored.edge.cluster = cluster then
        (graph.scores cluster).insert scored.edge.link scored.score
      else graph.scores cluster }

def upsert (graph : LinkGraph) (edges : List ScoredEdge) : LinkGraph := edges.foldl put graph

def wipe (graph : LinkGraph) (entity : EntityKey) (kept : PairSet) : LinkGraph :=
  { graph with
    scores := fun cluster =>
      (graph.scores cluster).filter fun link _ => !link.touches entity || kept.contains link.pair }

def point (graph : LinkGraph) (entity : EntityKey) (cluster : Id) : LinkGraph :=
  { graph with
    record := fun other =>
      if entity = other then (graph.record other).map fun _ => some cluster
      else graph.record other }

def ticked (graph : LinkGraph) (time : Int) : LinkGraph := { graph with lastTick := time }

structure Shrinks (graph after : LinkGraph) : Prop where
  rows : ∀ cluster, ∀ link ∈ after.scores cluster, link ∈ graph.scores cluster
  rest : after = { graph with scores := after.scores }

structure Appends (graph : LinkGraph) (entries : List LogEntry) (after : LinkGraph) : Prop where
  scores : after.scores = graph.scores
  record : after.record = graph.record
  lastTick : after.lastTick = graph.lastTick
  stamps : ∀ entity time, after.stamps entity time ↔
    graph.stamps entity time ∨ ∃ entry ∈ entries, entry.entity = entity ∧ entry.micros = time
  apart : ∀ cluster entity,
    (∀ entry ∈ entries, entry.cluster = cluster → entry.entity ≠ entity) →
    after.present cluster entity = graph.present cluster entity
  later : ∀ entry ∈ entries, (∀ other ∈ entries, other.stamp = entry.stamp) →
    (∀ time, graph.stamps entry.entity time → time < entry.micros) →
    after.present entry.cluster entry.entity = !entry.isDeparture

/-- What a write does; of deletions in the log nothing is said. -/
def Writes (graph : LinkGraph) : Write → LinkGraph → Prop
  | .upsertEdges edges _, after => after = graph.upsert edges
  | .deleteTouching entity kept, after => after = graph.wipe entity kept
  | .deleteEdge _, after => graph.Shrinks after
  | .deleteTouchingKeys _ _, after => graph.Shrinks after
  | .deleteTouchingSet _, after => graph.Shrinks after
  | .appendEntries entries, after => graph.Appends entries after
  | .upsertFeedback _, after => after = graph
  | .deleteFeedbackInSet _ _, after => after = graph
  | .deleteFeedbackOn _, after => after = graph
  | .deleteEntriesInSet _ _, _ => True
  | .deleteEntriesOf _ _, _ => True

def Reads (graph : LinkGraph) : (request : Read) → request.Answer → Prop
  | .clustersContaining entities, ids =>
      ∀ cluster, cluster ∈ ids ↔ ∃ entity ∈ entities, graph.Touches cluster entity
  | .loadClusters ids, loaded => ∀ cluster : Id,
      (cluster ∈ ids → graph.scores cluster ≠ ∅ →
        loaded[cluster]? = some (.ofLinks (graph.scores cluster))) ∧
      (¬(cluster ∈ ids ∧ graph.scores cluster ≠ ∅) → loaded[cluster]? = none)
  | .allEdges, _ => True
  | .feedback _, _ => True
  | .feedbackOn _ _, _ => True
  | .allFeedback, _ => True
  | .entriesFor _, _ => True

def Answers (mayFail : Prop) : Answering LinkGraph := fun graph call answer after =>
  match call, answer with
  | .read request, .ok answer => after = graph ∧ graph.Reads request answer
  | .read _, .error _ => after = graph ∧ mayFail
  | .write request, .ok _ => graph.Writes request after
  | .write _, .error _ => after = graph ∧ mayFail
  | .index (.setCluster entity cluster _), .ok _ => after = graph.point entity cluster
  | .index (.record entity), .ok record =>
      after = graph ∧ record.map IndexRecord.cluster = graph.record entity
  | .index _, .ok _ => after = graph
  | .index _, .error _ => after = graph ∧ mayFail
  | .tick, time => graph.lastTick < time ∧ 1 ≤ time ∧ after = graph.ticked time
  | _, _ => after = graph

end LinkGraph

namespace ClusterRows

theorem scores_insert (rows : ClusterRows) (link : Link) (row : MatchRow) :
    scores (rows.insert link row) = rows.scores.insert link row.score := by
  apply Std.ExtTreeMap.ext_getElem?
  intro other
  simp only [getElem?_scores, Std.ExtTreeMap.getElem?_insert]
  split <;> rfl

end ClusterRows

namespace Index

theorem getElem?_recordWrite (index : Index) (entity other : EntityKey) (writtenAt : Instant) :
    (index.recordWrite entity writtenAt)[other]? =
      if entity = other then
        some { index.getD entity ⟨none, none, writtenAt, 0⟩ with
          lastWrite := writtenAt
          version := (index.getD entity ⟨none, none, writtenAt, 0⟩).version.abs + 1 }
      else index[other]? := by
  simp only [recordWrite, Std.ExtTreeMap.getElem?_insert, Std.LawfulEqOrd.compare_eq_iff_eq]

theorem getElem?_setCluster (index : Index) (entity other : EntityKey) (cluster : Id) (linkedAt : Instant) :
    (index.setCluster entity cluster linkedAt).2[other]? =
      if entity = other then
        index[other]?.map fun record => { record with cluster := some cluster, lastLink := some linkedAt }
      else index[other]? := by
  simp only [setCluster]
  by_cases same : entity = other
  · subst same
    cases known : index[entity]? <;> simp [known]
  · cases known : index[entity]? <;> simp [same, Std.ExtTreeMap.getElem?_insert]

theorem getElem?_tombstone (index : Index) (entity other : EntityKey) :
    (index.tombstone entity).2[other]? =
      if entity = other then index[other]?.map fun record => { record with version := -record.version.abs }
      else index[other]? := by
  simp only [tombstone]
  by_cases same : entity = other
  · subst same
    cases known : index[entity]? <;> simp [known]
  · cases known : index[entity]? <;> simp [same, Std.ExtTreeMap.getElem?_insert]

end Index

namespace LinkGraph

def withTable (graph : LinkGraph) (table : MatchTable) : LinkGraph :=
  { graph with scores := fun cluster => (table.rowsOf cluster).scores }

theorem put_withTable (graph : LinkGraph) (table : MatchTable) (scored : ScoredEdge)
    (writtenAt : Instant) :
    (graph.withTable table).put scored = graph.withTable (table.put scored.edge ⟨scored.score, writtenAt⟩) := by
  simp only [put, withTable, mk.injEq, and_true]
  funext cluster
  rw [MatchTable.rowsOf_put]
  split <;> simp [ClusterRows.scores_insert]

theorem upsert_withTable (graph : LinkGraph) (table : MatchTable) (edges : List ScoredEdge)
    (writtenAt : Instant) :
    (graph.withTable table).upsert edges = graph.withTable (table.upsert edges writtenAt) := by
  induction edges generalizing table with
  | nil => rfl
  | cons scored edges ih =>
      refine Eq.trans ?_ (ih _)
      rw [← put_withTable]
      rfl

theorem wipe_withTable (graph : LinkGraph) {table : MatchTable} (sound : table.Sound)
    (entity : EntityKey) (kept : PairSet) :
    (graph.withTable table).wipe entity kept =
      graph.withTable (table.remove (table.planTouching entity kept)).2 := by
  simp only [wipe, withTable, mk.injEq, and_true]
  funext cluster
  apply Std.ExtTreeMap.ext_getElem?
  intro link
  simp only [Std.ExtTreeMap.getElem?_filter', ClusterRows.getElem?_scores,
    MatchTable.getElem?_rowsOf_remove, MatchTable.mem_planTouching sound]
  cases known : (table.rowsOf cluster)[link]? with
  | none => simp
  | some row =>
      have old : link ∈ table.rowsOf cluster := by
        rw [Std.ExtTreeMap.mem_iff_isSome_getElem?, known]
        rfl
      cases touches : link.touches entity with
      | false => simp
      | true =>
          by_cases protectedPair : link.pair ∈ kept
          · simp [protectedPair]
          · simp [protectedPair, old]

theorem shrinks_withTable (graph : LinkGraph) (table : MatchTable) (edges : List Edge) :
    (graph.withTable table).Shrinks (graph.withTable (table.remove edges).2) where
  rows := by
    intro cluster link
    simp only [withTable, ClusterRows.mem_scores]
    simp only [Std.ExtTreeMap.mem_iff_isSome_getElem?, MatchTable.getElem?_rowsOf_remove]
    split
    · simp
    · exact id
  rest := rfl

theorem reads_withTable (graph : LinkGraph) {tables : Tables} (sound : tables.matched.Sound) (request : Read) :
    (graph.withTable tables.matched).Reads request (tables.read request) := by
  cases request with
  | clustersContaining entities =>
      intro cluster
      refine (MatchTable.mem_clustersContaining sound).trans ?_
      simp only [Touches, withTable, ClusterRows.touched_scores]
  | loadClusters ids =>
      intro cluster
      have loaded := MatchTable.getElem?_load tables.matched ids cluster
      rw [MatchTable.getElem?_clusters sound] at loaded
      rw [withTable, Ne, ClusterRows.scores_eq_empty]
      constructor
      · intro listed filled
        rw [if_pos listed, if_neg filled] at loaded
        exact loaded.trans (congrArg some (ScoreMap.scoresOf_eq _))
      · intro outside
        refine loaded.trans ?_
        by_cases listed : cluster ∈ ids
        · have none : tables.matched.rowsOf cluster = ∅ :=
            Classical.byContradiction fun filled => outside ⟨listed, filled⟩
          simp [none]
        · simp [listed]
  | allEdges | feedback | feedbackOn | allFeedback | entriesFor => trivial

end LinkGraph

namespace System

def graph (system : System) (lastTick : Int) : LinkGraph where
  scores cluster := (system.store.tables.matched.rowsOf cluster).scores
  record entity := system.index[entity]?.map IndexRecord.cluster
  present cluster entity :=
    (Membership.fold (system.store.tables.log.entriesFor cluster) Membership.latest).has entity
  stamps entity time := ∃ cluster, ∃ entry ∈ system.store.tables.log.entriesFor cluster,
    entry.entity = entity ∧ entry.micros = time
  lastTick

structure Depicts (system : System) (graph : LinkGraph) : Prop where
  sound : system.store.tables.matched.Sound
  shown : graph = system.graph graph.lastTick
  ahead : ∀ reading, graph.lastTick < Membership.tick system.lastTick (system.clock reading)
  bounded : system.lastTick ≤ Membership.latest → graph.lastTick ≤ Membership.latest

theorem depicts_self {system : System} (sound : system.store.tables.matched.Sound) :
    system.Depicts (system.graph system.lastTick) where
  sound := sound
  shown := rfl
  ahead := fun _ => Membership.lt_tick _ _
  bounded := id

theorem Depicts.scores {system : System} {graph : LinkGraph} (depicted : system.Depicts graph)
    (cluster : Id) :
    graph.scores cluster = (system.store.tables.matched.rowsOf cluster).scores := by
  rw [depicted.shown]
  rfl

theorem Depicts.record {system : System} {graph : LinkGraph} (depicted : system.Depicts graph)
    (entity : EntityKey) : graph.record entity = system.index[entity]?.map IndexRecord.cluster := by
  rw [depicted.shown]
  rfl

theorem Depicts.withTable {system : System} {graph : LinkGraph} (depicted : system.Depicts graph) :
    graph.withTable system.store.tables.matched = graph :=
  calc graph.withTable system.store.tables.matched
    _ = (system.graph graph.lastTick).withTable system.store.tables.matched :=
        congrArg (·.withTable system.store.tables.matched) depicted.shown
    _ = system.graph graph.lastTick := rfl
    _ = graph := depicted.shown.symm

theorem Depicts.touches {system : System} {graph : LinkGraph} (depicted : system.Depicts graph)
    {cluster : Id} {entity : EntityKey} :
    graph.Touches cluster entity ↔
      Touched (system.store.tables.matched.rowsOf cluster) entity := by
  rw [LinkGraph.Touches, depicted.scores, ClusterRows.touched_scores]

theorem Depicts.unchanged {system after : System} {graph : LinkGraph}
    (depicted : system.Depicts graph) (matched : after.store.tables.matched = system.store.tables.matched)
    (log : after.store.tables.log = system.store.tables.log) (index : after.index = system.index)
    (lastTick : after.lastTick = system.lastTick) (clock : after.clock = system.clock) :
    after.Depicts graph where
  sound := by
    rw [matched]
    exact depicted.sound
  shown := by
    rw [depicted.shown]
    simp only [System.graph, matched, log, index]
  ahead := by
    rw [lastTick, clock]
    exact depicted.ahead
  bounded := by
    rw [lastTick]
    exact depicted.bounded

theorem Depicts.rematched {system after : System} {graph : LinkGraph}
    (depicted : system.Depicts graph) (sound : after.store.tables.matched.Sound)
    (log : after.store.tables.log = system.store.tables.log) (index : after.index = system.index)
    (lastTick : after.lastTick = system.lastTick) (clock : after.clock = system.clock) :
    after.Depicts (graph.withTable after.store.tables.matched) where
  sound := sound
  shown := by
    rw [depicted.shown]
    simp only [LinkGraph.withTable, System.graph, log, index]
  ahead := by
    rw [lastTick, clock]
    exact depicted.ahead
  bounded := by
    rw [lastTick]
    exact depicted.bounded

theorem Depicts.appended {system after : System} {graph : LinkGraph}
    (depicted : system.Depicts graph) {entries : List LogEntry}
    (matched : after.store.tables.matched = system.store.tables.matched)
    (log : after.store.tables.log = system.store.tables.log.append entries)
    (index : after.index = system.index) (lastTick : after.lastTick = system.lastTick)
    (clock : after.clock = system.clock) :
    graph.Appends entries (after.graph graph.lastTick) ∧
      after.Depicts (after.graph graph.lastTick) := by
  have rows : ∀ cluster, after.store.tables.log.entriesFor cluster =
      system.store.tables.log.entriesFor cluster ++
        entries.filter fun entry => entry.cluster = cluster := by
    intro cluster
    rw [log, LogTable.entriesFor_append]
  constructor
  · constructor
    case scores =>
      rw [depicted.shown]
      simp only [System.graph, matched]
    case record =>
      rw [depicted.shown]
      simp only [System.graph, index]
    case lastTick => rfl
    case stamps =>
      intro entity time
      rw [depicted.shown]
      simp only [System.graph, rows, List.mem_append, List.mem_filter, decide_eq_true_eq]
      constructor
      · rintro ⟨cluster, entry, old | new, about, same⟩
        · exact .inl ⟨cluster, entry, old, about, same⟩
        · exact .inr ⟨entry, new.1, about, same⟩
      · rintro (⟨cluster, entry, old, about, same⟩ | ⟨entry, new, about, same⟩)
        · exact ⟨cluster, entry, .inl old, about, same⟩
        · exact ⟨entry.cluster, entry, .inr ⟨new, rfl⟩, about, same⟩
    case apart =>
      intro cluster entity apart
      rw [depicted.shown]
      simp only [System.graph, rows]
      rw [Bool.eq_iff_iff, Membership.has_fold, Membership.has_fold,
        Membership.presence_append_apart]
      intro entry new
      simp only [List.mem_filter, decide_eq_true_eq] at new
      exact apart entry new.1 new.2
    case later =>
      intro entry new alike later
      have earlier : ∀ other ∈ system.store.tables.log.entriesFor entry.cluster,
          other.entity = entry.entity → other.micros < entry.micros := by
        intro other old about
        apply later
        rw [depicted.shown]
        exact ⟨entry.cluster, other, old, about, rfl⟩
      have listed : entry ∈ entries.filter fun other => other.cluster = entry.cluster := by
        simp [new]
      have present := Membership.presence_append_later listed rfl
        (Membership.micros_le_latest entry)
        (fun other found _ => alike other (List.mem_filter.mp found).1) earlier
      simp only [System.graph, rows]
      rw [Bool.eq_iff_iff, Membership.has_fold, present]
      simp
  · constructor
    case sound =>
      rw [matched]
      exact depicted.sound
    case shown => rfl
    case ahead =>
      rw [lastTick, clock]
      exact depicted.ahead
    case bounded =>
      rw [lastTick]
      exact depicted.bounded

section Write

variable {system : System} {graph : LinkGraph} {store : Store} {request : Write}

theorem Depicts.removed (depicted : system.Depicts graph)
    (tables : store.tables = (system.store.tables.write request).2 ∨
      (system.store.tables.plan request).isEmpty ∧ store.tables = system.store.tables)
    {edges : List Edge} (planned : system.store.tables.plan request = .removeEdges edges) :
    ({ system.read with store } : System).Depicts
      (graph.withTable (system.store.tables.matched.remove edges).2) := by
  have both : store.tables.matched = (system.store.tables.matched.remove edges).2 ∧
      store.tables.log = system.store.tables.log := by
    rcases tables with all | ⟨none, all⟩
    · rw [all, Tables.write, planned]
      exact ⟨rfl, rfl⟩
    · rw [planned] at none
      rw [all, List.isEmpty_iff.mp none]
      exact ⟨rfl, rfl⟩
  rw [← both.1]
  refine depicted.rematched ?_ both.2 rfl rfl rfl
  rw [both.1]
  exact depicted.sound.remove edges

theorem Depicts.unmatched (depicted : system.Depicts graph)
    (tables : store.tables = (system.store.tables.write request).2 ∨
      (system.store.tables.plan request).isEmpty ∧ store.tables = system.store.tables)
    (matched : (system.store.tables.write request).2.matched = system.store.tables.matched)
    (log : (system.store.tables.write request).2.log = system.store.tables.log) :
    ({ system.read with store } : System).Depicts graph := by
  refine depicted.unchanged ?_ ?_ rfl rfl rfl
  · rcases tables with all | ⟨_, all⟩ <;> simp only [all, matched]
  · rcases tables with all | ⟨_, all⟩ <;> simp only [all, log]

theorem Depicts.write (depicted : system.Depicts graph)
    {disk : Disk} {now : Instant} {written : Written}
    (wrote : system.store.write disk now request = (.ok written, store)) :
    ∃ after, graph.Writes request after ∧
      ({ system.read with store } : System).Depicts after := by
  have tables := Store.tables_of_write wrote
  have shown := depicted.withTable
  cases request with
  | upsertEdges edges writtenAt =>
      have both : store.tables.matched = system.store.tables.matched.upsert edges writtenAt ∧
          store.tables.log = system.store.tables.log := by
        rcases tables with all | ⟨none, all⟩
        · rw [all]
          exact ⟨rfl, rfl⟩
        · rw [all, List.isEmpty_iff.mp none]
          exact ⟨rfl, rfl⟩
      refine ⟨graph.upsert edges, rfl, ?_⟩
      rw [← shown, LinkGraph.upsert_withTable graph _ edges writtenAt, ← both.1]
      refine depicted.rematched ?_ both.2 rfl rfl rfl
      rw [both.1]
      exact depicted.sound.upsert edges writtenAt
  | deleteTouching entity kept =>
      refine ⟨_, rfl, ?_⟩
      rw [← shown, LinkGraph.wipe_withTable graph depicted.sound]
      exact depicted.removed tables rfl
  | deleteEdge link =>
      refine ⟨_, ?_, depicted.removed tables rfl⟩
      have shrinks := graph.shrinks_withTable system.store.tables.matched
        (system.store.tables.matched.planEdge link)
      rw [shown] at shrinks
      exact shrinks
  | deleteTouchingKeys set keys =>
      refine ⟨_, ?_, depicted.removed tables rfl⟩
      have shrinks := graph.shrinks_withTable system.store.tables.matched
        (system.store.tables.matched.planTouchingWhere
          fun entity => entity.set = set && keys.contains entity.key)
      rw [shown] at shrinks
      exact shrinks
  | deleteTouchingSet set =>
      refine ⟨_, ?_, depicted.removed tables rfl⟩
      have shrinks := graph.shrinks_withTable system.store.tables.matched
        (system.store.tables.matched.planTouchingWhere fun entity => entity.set = set)
      rw [shown] at shrinks
      exact shrinks
  | appendEntries entries =>
      have both : store.tables.matched = system.store.tables.matched ∧
          store.tables.log = system.store.tables.log.append entries := by
        rcases tables with all | ⟨none, all⟩
        · rw [all]
          exact ⟨rfl, rfl⟩
        · rw [all, List.isEmpty_iff.mp none]
          exact ⟨rfl, rfl⟩
      exact ⟨_, depicted.appended both.1 both.2 rfl rfl rfl⟩
  | upsertFeedback row => exact ⟨graph, rfl, depicted.unmatched tables rfl rfl⟩
  | deleteFeedbackInSet set keys => exact ⟨graph, rfl, depicted.unmatched tables rfl rfl⟩
  | deleteFeedbackOn entity => exact ⟨graph, rfl, depicted.unmatched tables rfl rfl⟩
  | deleteEntriesInSet cluster set =>
      have matched : store.tables.matched = system.store.tables.matched := by
        rcases tables with all | ⟨_, all⟩
        · rw [all]
          rfl
        · rw [all]
      refine ⟨({ system.read with store } : System).graph graph.lastTick, trivial, ?_, rfl,
        depicted.ahead, depicted.bounded⟩
      exact matched ▸ depicted.sound
  | deleteEntriesOf cluster members =>
      have matched : store.tables.matched = system.store.tables.matched := by
        rcases tables with all | ⟨_, all⟩
        · rw [all]
          rfl
        · rw [all]
      refine ⟨({ system.read with store } : System).graph graph.lastTick, trivial, ?_, rfl,
        depicted.ahead, depicted.bounded⟩
      exact matched ▸ depicted.sound

end Write

theorem Depicts.reads {system : System} {graph : LinkGraph} (depicted : system.Depicts graph)
    (request : Read) : graph.Reads request (system.store.read request) :=
  depicted.withTable ▸ graph.reads_withTable depicted.sound request

theorem Depicts.pointed {system : System} {graph : LinkGraph} (depicted : system.Depicts graph)
    (entity : EntityKey) (cluster : Id) (linkedAt : Instant) :
    ({ system with index := (system.index.setCluster entity cluster linkedAt).2 } : System).Depicts
      (graph.point entity cluster) where
  sound := depicted.sound
  shown := by
    rw [depicted.shown]
    simp only [LinkGraph.point, System.graph, LinkGraph.mk.injEq, and_true, true_and]
    funext other
    rw [Index.getElem?_setCluster]
    split
    · cases system.index[other]? <;> rfl
    · rfl
  ahead := depicted.ahead
  bounded := depicted.bounded

theorem Depicts.ticks {system : System} {graph : LinkGraph} (depicted : system.Depicts graph)
    (now : Instant) :
    ({ system.read with lastTick := Membership.tick system.lastTick now } : System).Depicts
      (graph.ticked (Membership.tick system.lastTick now)) where
  sound := depicted.sound
  shown := by
    rw [depicted.shown]
    rfl
  ahead := by
    intro reading
    exact Membership.lt_tick _ _
  bounded := id

/-- The graph answers every call as its system may. -/
theorem Depicts.answered {mayFail : Prop} {system after : System} {graph : LinkGraph} {call : Call}
    {answer : call.Answer} (depicted : system.Depicts graph)
    (answered : System.Answers mayFail system call answer after) :
    ∃ image, LinkGraph.Answers mayFail graph call answer image ∧ after.Depicts image := by
  obtain ⟨possible, succeeds⟩ := answered
  cases call with
  | host call => exact ⟨graph, rfl, possible ▸ depicted⟩
  | read request =>
      cases answer with
      | ok answer => exact ⟨graph, ⟨rfl, possible.1 ▸ depicted.reads request⟩, possible.2 ▸ depicted⟩
      | error error =>
          have failed := succeeds.resolve_left id
          exact ⟨graph, ⟨rfl, failed⟩, possible ▸ depicted⟩
  | write request =>
      cases answer with
      | ok written =>
          obtain ⟨disk, store, wrote, rfl⟩ := possible.written
          obtain ⟨image, writes, depicts⟩ := depicted.write wrote
          exact ⟨image, writes, depicts⟩
      | error error =>
          have failed := succeeds.resolve_left id
          obtain ⟨tables, lastTick⟩ := possible.refused
          have fixes := possible.fixes
          exact ⟨graph, ⟨rfl, failed⟩, depicted.unchanged (congrArg Tables.matched tables)
            (congrArg Tables.log tables) (fixes.index (by simp)) lastTick fixes.clock⟩
  | index call =>
      cases answer with
      | error error =>
          have failed := succeeds.resolve_left id
          cases call <;> exact ⟨graph, ⟨rfl, failed⟩, possible ▸ depicted⟩
      | ok answer =>
          obtain ⟨rfl, rfl⟩ := possible
          cases call with
          | setCluster entity cluster linkedAt =>
              exact ⟨_, rfl, depicted.pointed entity cluster linkedAt⟩
          | record entity => exact ⟨graph, ⟨rfl, (depicted.record entity).symm⟩, depicted⟩
          | needingLinking sets limit => exact ⟨graph, rfl, depicted⟩
          | notLinked sets limit => exact ⟨graph, rfl, depicted⟩
  | feedbackCache call =>
      obtain ⟨cache, _, rfl⟩ := possible
      exact ⟨graph, rfl, depicted.unchanged rfl rfl rfl rfl rfl⟩
  | typeCache call =>
      obtain ⟨cache, _, rfl⟩ := possible
      exact ⟨graph, rfl, depicted.unchanged rfl rfl rfl rfl rfl⟩
  | setsCache call =>
      obtain ⟨cache, _, rfl⟩ := possible
      exact ⟨graph, rfl, depicted.unchanged rfl rfl rfl rfl rfl⟩
  | lock call =>
      simp only [MayAnswer, answer?, Option.map_eq_some_iff, Prod.mk.injEq] at possible
      obtain ⟨locks, _, _, rfl⟩ := possible
      exact ⟨graph, rfl, depicted.unchanged rfl rfl rfl rfl rfl⟩
  | now =>
      simp only [MayAnswer, answer?, Option.some.injEq, Prod.mk.injEq] at possible
      exact ⟨graph, rfl, possible.2 ▸ depicted.unchanged rfl rfl rfl rfl rfl⟩
  | tick =>
      simp only [MayAnswer, answer?, Option.some.injEq, Prod.mk.injEq] at possible
      obtain ⟨rfl, rfl⟩ := possible
      exact ⟨_, ⟨depicted.ahead _, Membership.one_le_tick _ _, rfl⟩, depicted.ticks _⟩
  | drawId =>
      simp only [MayAnswer, answer?, Option.some.injEq, Prod.mk.injEq] at possible
      exact ⟨graph, rfl, possible.2 ▸ depicted.unchanged rfl rfl rfl rfl rfl⟩

end System

end RecordLinkage
