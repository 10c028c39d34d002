import RecordLinkage.Proofs.Linking.Joins
import RecordLinkage.Proofs.Linking.Memberships

/-! What a pass leaves behind if it fails. Until its edges are written it only removes rows, so every row of
an entity with a link pointer still lies in the cluster that it names. Then it moves one pointer after the
other: if it fails now, entities whose pointers it did not come to have their rows in the chosen cluster,
while their pointers name another one. -/

namespace RecordLinkage

namespace LinkGraph

def Pointed (graph : LinkGraph) : Prop :=
  ∀ entity cluster, graph.pointer entity = some cluster → ∀ other, graph.Touches other entity →
    other = cluster

/-- A failed pass over the focal entity left an entity astray: it has the pointer that it had, and all its
rows are some of those that the pass wrote, in another cluster; or it is the focal entity, and had no
pointer. -/
def Strays (graph after : LinkGraph) (focal entity : EntityKey) (cluster other : Id) : Prop :=
  (graph.pointer entity = some cluster ∧ ∀ id, ∀ link ∈ after.scores id, link.touches entity →
    id = other ∧ link.touches focal) ∨
  entity = focal ∧ graph.pointer focal = none

abbrev AnswersWhere (mayFail : Call → Prop) : Answering LinkGraph :=
  fun graph call => Answers (mayFail call) graph call

variable {graph middle after : LinkGraph} {mayFail : Call → Prop} {call : Call} {answer : call.Answer}

theorem Answers.mono {fails weaker : Prop} (answered : Answers fails graph call answer after)
    (weaken : fails → weaker) : Answers weaker graph call answer after := by
  cases call with
  | read request =>
      cases answer with
      | ok answer => exact answered
      | error error => exact answered.imp_right weaken
  | write request =>
      cases answer with
      | ok written => exact answered
      | error error => exact answered.imp_right weaken
  | index request =>
      cases answer with
      | ok answer => cases request <;> exact answered
      | error error => cases request <;> exact answered.imp_right weaken
  | _ => exact answered

structure PartlyJoined (cluster : Id) (joining moved : List EntityKey) (graph after : LinkGraph) : Prop where
  listed : ∀ entity ∈ moved, entity ∈ joining
  scores : after.scores = graph.scores
  record : ∀ entity, after.record entity =
    if entity ∈ moved then (graph.record entity).map fun _ => some cluster else graph.record entity

section Joins

variable {cluster : Id} {joining moved : List EntityKey}

theorem partlyJoined_none (cluster : Id) (joining : List EntityKey) (graph : LinkGraph) :
    graph.PartlyJoined cluster joining [] graph :=
  ⟨nofun, rfl, by simp⟩

theorem PartlyJoined.congr (joined : graph.PartlyJoined cluster joining moved middle)
    (scores : after.scores = middle.scores) (record : after.record = middle.record) :
    graph.PartlyJoined cluster joining moved after :=
  ⟨joined.listed, scores.trans joined.scores, fun entity => record ▸ joined.record entity⟩

theorem PartlyJoined.point (joined : graph.PartlyJoined cluster joining moved middle) {entity : EntityKey}
    (listed : entity ∈ joining) :
    graph.PartlyJoined cluster joining (entity :: moved) (middle.point entity cluster) where
  listed := by
    intro other found
    rcases List.mem_cons.mp found with rfl | old
    · exact listed
    · exact joined.listed other old
  scores := joined.scores
  record := by
    intro other
    simp only [LinkGraph.point, joined.record, List.mem_cons, @eq_comm _ other]
    by_cases same : entity = other <;> by_cases old : other ∈ moved <;>
      simp [same, old, Option.map_map, Function.comp_def]

theorem PartlyJoined.answered (joined : graph.PartlyJoined cluster joining moved middle)
    (joins : call.Joins cluster joining) {fails : Prop} (answered : Answers fails middle call answer after) :
    ∃ moved, graph.PartlyJoined cluster joining moved after := by
  cases call with
  | index request =>
      cases request with
      | setCluster entity id linkedAt =>
          obtain ⟨listed, rfl⟩ := joins
          cases answer with
          | ok count =>
              obtain rfl := answered
              exact ⟨_, joined.point listed⟩
          | error error => exact ⟨_, answered.1 ▸ joined⟩
      | record entity => cases answer <;> exact ⟨_, answered.1 ▸ joined⟩
      | _ => exact joins.elim
  | write request =>
      cases request with
      | appendEntries entries =>
          cases answer with
          | ok written => exact ⟨_, joined.congr (Appends.scores answered) (Appends.record answered)⟩
          | error error => exact ⟨_, answered.1 ▸ joined⟩
      | _ => exact joins.elim
  | now => exact ⟨_, Eq.symm answered ▸ joined⟩
  | tick =>
      obtain ⟨_, _, rfl⟩ := answered
      exact ⟨_, joined.congr rfl rfl⟩
  | _ => exact joins.elim

end Joins

end LinkGraph

def FailsLate (mayFail : Call → Prop) : Prop :=
  (∃ request, mayFail (.index request)) ∨ ∃ entries, mayFail (.write (.appendEntries entries))

namespace Prepared

structure Halfway (prepared : Prepared) (reserved : Id) (snapshot : Linking.Snapshot) (moved : List EntityKey)
    (graph after : LinkGraph) : Prop where
  shows : prepared.Shows (prepared.wiped graph) snapshot
  joined : ((prepared.wiped graph).upsert
      (prepared.edges snapshot (prepared.cluster reserved snapshot))).PartlyJoined
    (prepared.cluster reserved snapshot) (prepared.joining snapshot (prepared.cluster reserved snapshot)) moved
    after

variable {prepared : Prepared} {reserved : Id} {snapshot : Linking.Snapshot} {moved : List EntityKey}
  {graph after : LinkGraph}

theorem Halfway.pointed (halfway : prepared.Halfway reserved snapshot moved graph after)
    (sound : prepared.Sound) (pointed : graph.Pointed) {entity : EntityKey} {cluster other : Id}
    (points : after.pointer entity = some cluster) (touches : after.Touches other entity) :
    other = cluster ∨ graph.Strays after prepared.focal entity cluster other := by
  obtain ⟨shows, joined⟩ := halfway
  have scores := joined.scores
  have record := joined.record entity
  simp only [LinkGraph.record_upsert, wiped, LinkGraph.record_wipe] at record
  have touched : (prepared.wiped graph).Touches other entity ∨ other = prepared.cluster reserved snapshot ∧
      entity ∈ prepared.matched snapshot (prepared.cluster reserved snapshot) := by
    rw [LinkGraph.Touches, scores] at touches
    exact LinkGraph.touches_upsert sound.focal touches
  by_cases already : entity ∈ moved
  · -- The pointer was moved, so that only rows which were there before can lie elsewhere.
    obtain rfl : cluster = prepared.cluster reserved snapshot := by
      rw [LinkGraph.pointer, record, if_pos already] at points
      cases known : graph.record entity <;> simp_all
    rcases touched with old | ⟨here, _⟩
    · obtain ⟨accepted, rfl | apart⟩ := mem_joining.mp (joined.listed entity already)
      · cases before : graph.pointer prepared.focal with
        | none => exact .inr (.inr ⟨rfl, before⟩)
        | some home =>
            have here := pointed _ home before _
              (LinkGraph.touches_wipe (shows.focal_touches sound reserved old))
            exact .inl ((pointed _ home before other (LinkGraph.touches_wipe old)).trans here.symm)
      · exact absurd ((shows.clustered accepted).mpr ⟨other, old⟩) apart
    · exact .inl here
  · have kept : graph.pointer entity = some cluster := by
      rwa [LinkGraph.pointer, record, if_neg already] at points
    rcases touched with old | ⟨rfl, matched⟩
    · exact .inl (pointed entity cluster kept other (LinkGraph.touches_wipe old))
    · by_cases here : prepared.cluster reserved snapshot = cluster
      · exact .inl here
      -- An entity with a row that was not wiped is a match in the cluster where the row lies.
      have none : ∀ id, ¬(prepared.wiped graph).Touches id entity := by
        intro id old
        exact here (pointed entity cluster kept _
          (LinkGraph.touches_wipe (shows.matched_touches sound reserved old matched)))
      refine .inr (.inl ⟨kept, ?_⟩)
      intro id link listed about
      rw [scores] at listed
      rcases LinkGraph.mem_scores_upsert.mp listed with old | ⟨scored, new, same⟩
      · exact (none id ⟨link, about, old⟩).elim
      · obtain ⟨own, _, _, ends⟩ := mem_edges new
        rw [same] at own ends
        refine ⟨own, ?_⟩
        rcases ends with rfl | rfl <;> simp [Link.touches]

end Prepared

namespace Action

variable {α : Type} {mayFail : Call → Prop} {left : LinkGraph → Prop} {graph : LinkGraph}

abbrev Leaves (mayFail : Call → Prop) (left : LinkGraph → Prop) (post : α → LinkGraph → Prop)
    (action : Action α) (graph : LinkGraph) : Prop :=
  action.Ensures (LinkGraph.AnswersWhere mayFail) (fun _ _ => True) (fun _ => left) post graph

section Early

variable (stays : left graph)
include stays

theorem leaves_looks {known : α → Prop} {post : α → LinkGraph → Prop} {action : Action α}
    (looks : action.Looks True known) (holds : ∀ value, known value → post value graph) :
    action.Leaves mayFail left post graph := by
  have kept : action.Ensures (LinkGraph.AnswersWhere mayFail) (fun _ _ => True) (fun _ after => after = graph)
      (fun value after => after = graph ∧ known value) graph := by
    refine Asks.ensures looks (· = graph) rfl (fun _ _ _ _ => trivial) ?_
    rintro _ call answer after rfl allowed answered
    exact answered.looked allowed
  refine (kept.refuse ?_).mono ?_
  · rintro error _ rfl
    exact stays
  · rintro value _ ⟨rfl, known⟩
    exact holds value known

theorem leaves_read {request : Read} {post : request.Answer → LinkGraph → Prop}
    (holds : ∀ answer, graph.Reads request answer → post answer graph) :
    (Action.read request).Leaves mayFail left post graph := by
  refine ⟨trivial, ?_⟩
  intro answer after answered
  cases answer with
  | ok answer => exact answered.1 ▸ holds answer answered.2
  | error error => exact answered.1 ▸ stays

theorem leaves_write {request : Write} {post : Written → LinkGraph → Prop}
    (holds : ∀ written after, graph.Writes request after → post written after) :
    (Action.write request).Leaves mayFail left post graph := by
  refine ⟨trivial, ?_⟩
  intro answer after answered
  cases answer with
  | ok written => exact holds written after answered
  | error error => exact answered.1 ▸ stays

theorem leaves_pointer {entity : EntityKey} {post : Option Id → LinkGraph → Prop}
    (holds : ∀ pointer, post pointer graph) :
    (ClusterGraph.pointer entity).Leaves mayFail left post graph :=
  leaves_looks stays (asks_pointer trivial) fun pointer _ => holds pointer

theorem leaves_clustersContaining {entities : EntitySet} {post : IdSet → LinkGraph → Prop}
    (holds : ∀ ids : IdSet, (∀ cluster, cluster ∈ ids ↔ ∃ entity ∈ entities, graph.Touches cluster entity) →
      post ids graph) :
    (ClusterGraph.clustersContaining entities).Leaves mayFail left post graph := by
  unfold ClusterGraph.clustersContaining
  split
  · rename_i none
    refine (ensures_pure _ _).mpr (holds ∅ ?_)
    simp [Std.ExtTreeSet.isEmpty_iff.mp none]
  · exact leaves_read stays holds

theorem leaves_clusters {ids : IdSet} {post : Linking.Snapshot → LinkGraph → Prop}
    (holds : ∀ loaded, graph.Reads (.loadClusters ids) loaded → post loaded graph) :
    (ClusterGraph.clusters ids).Leaves mayFail left post graph := by
  unfold ClusterGraph.clusters
  split
  · rename_i none
    refine (ensures_pure _ _).mpr (holds ∅ ?_)
    intro cluster
    simp [Std.ExtTreeSet.isEmpty_iff.mp none]
  · exact leaves_read stays holds

theorem leaves_deleteNeighborhoodIn {transaction : Transaction} {entity : EntityKey} {kept : PairSet}
    {post : Nat → LinkGraph → Prop} (holds : ∀ count, post count (graph.wipe entity kept)) :
    (ClusterGraph.deleteNeighborhoodIn transaction entity kept).Leaves mayFail left post graph := by
  unfold ClusterGraph.deleteNeighborhoodIn
  split
  · exact (ensures_throw _ _).mpr stays
  · refine (ensures_bind _ _ _).mpr (leaves_clustersContaining stays fun touched _ => ?_)
    split
    · exact (ensures_throw _ _).mpr stays
    · refine (ensures_bind _ _ _).mpr (leaves_write stays ?_)
      rintro written after rfl
      exact (ensures_pure _ _).mpr (holds _)

theorem leaves_flush {transaction : Transaction} {post : Nat → LinkGraph → Prop}
    (holds : ∀ count, post count (graph.upsert transaction.staged)) :
    transaction.flush.Leaves mayFail left post graph := by
  unfold Transaction.flush
  split
  · rename_i none
    have count := holds 0
    rw [List.isEmpty_iff.mp none] at count
    exact (ensures_pure _ _).mpr count
  · refine (ensures_bind _ _ _).mpr ((ensures_lift _ _).mpr ⟨trivial, ?_⟩)
    rintro now _ rfl
    refine (ensures_bind _ _ _).mpr (leaves_write stays ?_)
    rintro written after rfl
    exact (ensures_pure _ _).mpr (holds _)

end Early

/-- While pointers are moved, only a call to the index or to the log can fail. -/
theorem leaves_joins {base : LinkGraph} {cluster : Id} {joining moved : List EntityKey} {action : Action α}
    (relays : action.Relays (Call.Joins cluster joining))
    (joined : base.PartlyJoined cluster joining moved graph)
    (fails : FailsLate mayFail → ∀ moved after, base.PartlyJoined cluster joining moved after → left after) :
    action.Leaves mayFail left (fun _ after => ∃ moved, base.PartlyJoined cluster joining moved after)
      graph := by
  refine relays.ensures ⟨moved, joined⟩ (fun _ _ _ _ => trivial) ?_ ?_
  · rintro state call answer after ⟨moved, joined⟩ joins answered
    exact joined.answered joins answered
  · rintro state call answer after error ⟨moved, joined⟩ joins answered failed
    obtain ⟨moved, joined⟩ := joined.answered joins answered
    refine fails ?_ moved after joined
    cases call with
    | index request =>
        cases answer with
        | ok answer => cases failed
        | error error => cases request <;> exact .inl ⟨_, answered.2⟩
    | write request =>
        cases request with
        | appendEntries entries =>
            cases answer with
            | ok written => cases failed
            | error error => exact .inr ⟨entries, answered.2⟩
        | _ => exact joins.elim
    | now | tick => cases failed
    | _ => exact joins.elim

variable {prepared : Prepared} {reserved : Id}

theorem leaves_place {transaction : Transaction} (own : transaction.reserved = some reserved)
    (staged : transaction.staged = []) (stays : left graph) (wiped : left (prepared.wiped graph))
    (fails : FailsLate mayFail → ∀ snapshot moved after,
      prepared.Halfway reserved snapshot moved graph after → left after) :
    (Linking.place transaction prepared.focal prepared.scored prepared.positive).Leaves mayFail left
      (fun _ _ => True) graph := by
  unfold Linking.place
  refine (ensures_bind _ _ _).mpr (leaves_pointer stays fun previous => ?_)
  refine (ensures_bind _ _ _).mpr (leaves_deleteNeighborhoodIn stays fun _ => ?_)
  change left (prepared.wiped graph) at wiped
  refine (ensures_bind _ _ _).mpr (leaves_clustersContaining wiped fun ids found => ?_)
  refine (ensures_bind _ _ _).mpr (leaves_clusters wiped fun snapshot loaded => ?_)
  have shows : prepared.Shows (prepared.wiped graph) snapshot := Prepared.shows_of_reads found loaded
  refine (ensures_bind _ _ _).mpr (ensures_choose prepared own ?_)
  dsimp only
  split
  · exact (ensures_throw _ _).mpr wiped
  rename_i accepted ok
  have edges : accepted.staged = prepared.edges snapshot (prepared.cluster reserved snapshot) := by
    rw [Transaction.stage_ok ok, staged]
    rfl
  have joins : ∀ {β : Type} {action : Action β} {moved : List EntityKey} {middle : LinkGraph},
      action.Relays (Call.Joins (prepared.cluster reserved snapshot)
        (prepared.joining snapshot (prepared.cluster reserved snapshot))) →
      prepared.Halfway reserved snapshot moved graph middle →
      action.Leaves mayFail left
        (fun _ after => ∃ moved, prepared.Halfway reserved snapshot moved graph after) middle := by
    intro β action moved middle relays halfway
    refine (leaves_joins relays halfway.joined fun late moved after joined => ?_).mono ?_
    · exact fails late snapshot moved after ⟨shows, joined⟩
    · rintro _ after ⟨moved, joined⟩
      exact ⟨moved, shows, joined⟩
  refine (ensures_bind _ _ _).mpr (leaves_flush wiped fun _ => ?_)
  rw [edges]
  have begun : prepared.Halfway reserved snapshot [] graph ((prepared.wiped graph).upsert
      (prepared.edges snapshot (prepared.cluster reserved snapshot))) :=
    ⟨shows, LinkGraph.partlyJoined_none _ _ _⟩
  refine (ensures_bind _ _ _).mpr ((joins (relays_moveAll _ _ _ _) begun).mono ?_)
  rintro _ middle ⟨moved, halfway⟩
  exact (ensures_bind _ _ _).mpr ((joins (relays_join _ _ _) halfway).mono fun _ _ _ => trivial)

theorem leaves_settle {transaction : Transaction} (own : transaction.reserved = some reserved)
    (staged : transaction.staged = []) (stays : left graph) (wiped : left (prepared.wiped graph))
    (fails : FailsLate mayFail → ∀ snapshot moved after,
      prepared.Halfway reserved snapshot moved graph after → left after) :
    (prepared.settle transaction).Leaves mayFail left (fun _ _ => True) graph := by
  rw [prepared.settle_eq]
  refine (ensures_thenAlways _ _ _).mpr
    (Program.Ensures.mono (leaves_place own staged stays wiped fails) ?_)
  intro result after holds
  refine (transaction.ensures_release trivial fun _ _ answered => answered).mono ?_
  rintro _ _ rfl
  exact holds

theorem leaves_finish (sound : prepared.Sound) (stays : left graph) (wiped : left (prepared.wiped graph))
    (fails : FailsLate mayFail → ∀ reserved snapshot moved after,
      prepared.Halfway reserved snapshot moved graph after → left after) :
    prepared.finish.Leaves mayFail left (fun _ _ => True) graph := by
  have locks : (ClusterGraph.lockMembers prepared.members).Leaves mayFail left
      (fun transaction after => after = graph ∧ ∃ progress, LockProgress.Acquired prepared.members
        (graph.Reads (.clustersContaining prepared.members)) (fun _ => True) transaction progress) graph := by
    refine Ensures.refuse (Program.Ensures.fewer (LinkGraph.ensures_lockMembers sound.filled) ?_) ?_
    · exact fun _ _ _ _ answered => answered.mono fun _ => trivial
    · rintro error _ rfl
      exact stays
  refine (ensures_bind _ _ _).mpr (locks.mono ?_)
  rintro transaction _ ⟨rfl, progress, acquired⟩
  obtain ⟨reserved, own, _⟩ := acquired.reserved
  exact leaves_settle own acquired.staged stays wiped fun late => fails late reserved

/-- A pass that fails leaves the graph as it was, with rows of the focal entity wiped, or halfway. -/
theorem leaves_link (linker : Linker) (focal : EntityKey) (stays : left graph)
    (wiped : ∀ prepared : Prepared, prepared.focal = focal → left (prepared.wiped graph))
    (fails : FailsLate mayFail → ∀ (prepared : Prepared) reserved snapshot moved after,
      prepared.focal = focal → prepared.Sound → prepared.Halfway reserved snapshot moved graph after →
      left after) :
    (linker.link focal).Leaves mayFail left (fun _ _ => True) graph := by
  rw [linker.link_eq]
  refine (ensures_bind _ _ _).mpr (leaves_looks stays (linker.looks_prepare_of focal) ?_)
  rintro (outcome | prepared) ⟨found, concerns⟩
  · trivial
  · have own := concerns prepared rfl
    exact leaves_finish found stays (wiped prepared own) fun late reserved snapshot moved after =>
      fails late prepared reserved snapshot moved after own found

end Action

namespace LinkGraph

def LeftPointed (mayFail : Call → Prop) (focal : EntityKey) (graph after : LinkGraph) : Prop :=
  (after.Pointed ∨ FailsLate mayFail) ∧
  ∀ entity cluster, after.pointer entity = some cluster → ∀ other, after.Touches other entity →
    other = cluster ∨ graph.Strays after focal entity cluster other

theorem Pointed.left {mayFail : Call → Prop} {focal : EntityKey} {graph after : LinkGraph}
    (pointed : after.Pointed) : LeftPointed mayFail focal graph after :=
  ⟨.inl pointed, fun entity cluster points other touches => .inl (pointed entity cluster points other touches)⟩

theorem leftPointed_link {mayFail : Call → Prop} {graph : LinkGraph} (linker : Linker) (focal : EntityKey)
    (pointed : graph.Pointed) :
    (linker.link focal).Leaves mayFail (LeftPointed mayFail focal graph) (fun _ _ => True) graph := by
  refine Action.leaves_link linker focal pointed.left ?_ ?_
  · intro prepared _
    have wiped : (prepared.wiped graph).Pointed := fun entity cluster points other touches =>
      pointed entity cluster points other (touches_wipe touches)
    exact wiped.left
  · rintro late prepared reserved snapshot moved after rfl sound halfway
    exact ⟨.inr late, fun entity cluster points other touches =>
      halfway.pointed sound pointed points touches⟩

end LinkGraph

namespace System

variable {before after : System}

/-- Whether every row of an entity with a link pointer lies in the cluster that it names. -/
def Pointed (system : System) : Prop :=
  ∀ entity cluster, system.pointer entity = some cluster → ∀ other,
    Touched (system.store.tables.matched.rowsOf other) entity → other = cluster

theorem Depicts.pointed_iff {system : System} {graph : LinkGraph} (depicted : system.Depicts graph) :
    graph.Pointed ↔ system.Pointed := by
  simp only [LinkGraph.Pointed, Pointed, depicted.pointer, depicted.touches]

/-- After a failed pass every row of an entity with a link pointer still lies in the cluster that it names,
unless a call to the index or one that writes to the log failed. Even then this holds of each entity
that the pass did not leave astray. -/
theorem pointed_of_failed {mayFail : Call → Prop} {linker : Linker} {focal : EntityKey} {error : LinkError}
    (sound : before.store.tables.matched.Sound) (pointed : before.Pointed)
    (run : Program.Runs (fun system call => Answers (mayFail call) system call) (linker.link focal).run before
      (.error error) after) :
    (after.Pointed ∨ FailsLate mayFail) ∧
    ∀ entity cluster, after.pointer entity = some cluster → ∀ other,
      Touched (after.store.tables.matched.rowsOf other) entity → other = cluster ∨
        (before.graph before.lastTick).Strays (after.graph after.lastTick) focal entity cluster other := by
  have depicted := depicts_self sound
  obtain ⟨image, depicts, holds⟩ := run.simulated
    (LinkGraph.leftPointed_link linker focal (depicted.pointed_iff.mpr pointed)) Depicts depicted
    (fun _ _ _ _ _ depicted _ answered => depicted.answered answered)
  obtain ⟨left, strays⟩ := holds
  refine ⟨left.imp_left depicts.pointed_iff.mp, ?_⟩
  intro entity cluster points other touched
  have astray := strays entity cluster (by rwa [depicts.pointer]) other (depicts.touches.mpr touched)
  rw [depicts.shown] at astray
  exact astray

end System

namespace Sample

def Moves : Call → Prop
  | .index (.setCluster _ _ _) => True
  | _ => False

def refusing (system : System) : (call : Call) → Option (call.Answer × System)
  | .index (.setCluster _ _ _) => some (.error (.storage (.connection "down")), system)
  | call => system.answer? call

def halted : System := ((linker.link left).run.run refusing linked).2

structure Working (system : System) : Prop where
  memory : ∃ tables, system.store = .memory tables
  host : system.host = Sample.host

theorem Working.answers (mayFail : Prop) {system after : System} {call : Call} {answer : call.Answer}
    (working : Working system) (answered : system.answer? call = some (answer, after)) :
    System.Answers mayFail system call answer after ∧ Working after := by
  obtain ⟨tables, memory⟩ := working.memory
  have possible := System.mayAnswer_of_answer? answered
  obtain ⟨succeeds, kept⟩ := System.succeeds_of_host memory (working.host ▸ host_succeeds) answered
  exact ⟨⟨possible, .inl succeeds⟩, kept, possible.fixes.host.trans working.host⟩

theorem Working.refuses {system after : System} {call : Call} {answer : call.Answer}
    (working : Working system) (answered : refusing system call = some (answer, after)) :
    System.Answers (Moves call) system call answer after ∧ Working after := by
  unfold refusing at answered
  split at answered
  · cases answered
    exact ⟨⟨rfl, .inr trivial⟩, working⟩
  · exact working.answers _ answered

theorem ended_linked : ((linker.link left).run.run System.answer? written).1.result?.any Except.isOk := by
  decide +kernel

theorem working_linked : Working linked := by
  have start : Working written := ⟨⟨_, rfl⟩, rfl⟩
  obtain ⟨result, same, _⟩ := (Option.any_eq_true _ _).mp ended_linked
  exact (Program.runs_of_result same).keeps Working start fun _ _ _ _ working answered =>
    (working.answers False answered).2

theorem runs_halted : ∃ error, Program.Runs (fun system call => System.Answers (Moves call) system call)
    (linker.link left).run linked (.error error) halted := by
  have ended : ((linker.link left).run.run refusing linked).1.result?.any fun result => !result.isOk := by
    decide +kernel
  obtain ⟨result, same, failed⟩ := (Option.any_eq_true _ _).mp ended
  cases result with
  | ok outcome => contradiction
  | error error =>
      exact ⟨error, (Program.runs_of_result same).mono_of working_linked fun _ _ _ _ => Working.refuses⟩

theorem pointed_linked : linked.store.tables.matched.Sound ∧ linked.Pointed := by
  have depicted : written.Depicts _ := System.depicts_self MatchTable.sound_empty
  obtain ⟨graph, depicts, consistent⟩ := System.depicts_of_operates (.of_run ended_linked) depicted
    (System.consistent_empty _ rfl)
  exact ⟨depicts.sound, depicts.pointed_iff.mp consistent.pointed⟩

/-- A pass over an entity that is linked, in which its pointer cannot be moved. -/
theorem pointed_of_failed_halted :
    linked.store.tables.matched.Sound ∧ linked.Pointed ∧
    (∃ error, Program.Runs (fun system call => System.Answers (Moves call) system call)
      (linker.link left).run linked (.error error) halted) ∧
    (halted.Pointed ∨ FailsLate Moves) ∧
    ∀ entity cluster, halted.pointer entity = some cluster → ∀ other,
      Touched (halted.store.tables.matched.rowsOf other) entity → other = cluster ∨
        (linked.graph linked.lastTick).Strays (halted.graph halted.lastTick) left entity cluster other := by
  obtain ⟨sound, pointed⟩ := pointed_linked
  obtain ⟨error, run⟩ := runs_halted
  exact ⟨sound, pointed, ⟨error, run⟩, System.pointed_of_failed sound pointed run⟩

/-- The pass wrote a row of the entity in another cluster than its pointer names. -/
theorem not_pointed_halted : linked.Pointed ∧
    (∃ error, Program.Runs (fun system call => System.Answers (Moves call) system call)
      (linker.link left).run linked (.error error) halted) ∧
    ¬halted.Pointed := by
  refine ⟨pointed_linked.2, runs_halted, fun pointed => ?_⟩
  have here : halted.pointer left = some (.ofNat 100) := by decide +kernel
  have there : ⟨left, left⟩ ∈ halted.store.tables.matched.rowsOf (.ofNat 101) := by decide +kernel
  have same := pointed left _ here _ ⟨_, by decide, there⟩
  revert same
  decide

end Sample

end RecordLinkage
