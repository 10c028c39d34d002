import RecordLinkage.Proofs.Linking.Moves

/-! What the part of a pass under its locks does to the graph. It depends on the rows, pointers and log
rows under the locks alone, and on nothing that it was not given. -/

namespace RecordLinkage

structure Scored.Sound (focal : EntityKey) (scored : Scored) : Prop where
  focal : focal ∈ scored
  inUnit : ∀ (entity : EntityKey) score, scored[entity]? = some score → score.inUnit

structure Prepared where
  focal : EntityKey
  scored : Scored
  positive : PairSet

namespace Prepared

def members (prepared : Prepared) : EntitySet := .ofList prepared.scored.keys

def Sound (prepared : Prepared) : Prop := prepared.scored.Sound prepared.focal

theorem mem_members {prepared : Prepared} {entity : EntityKey} :
    entity ∈ prepared.members ↔ entity ∈ prepared.scored := by
  simp [members]

def wiped (prepared : Prepared) (graph : LinkGraph) : LinkGraph :=
  graph.wipe prepared.focal prepared.positive

def Meets (prepared : Prepared) (graph : LinkGraph) (cluster : Id) : Prop :=
  ∃ entity ∈ prepared.scored, graph.Touches cluster entity

structure Shows (prepared : Prepared) (graph : LinkGraph) (snapshot : Linking.Snapshot) : Prop where
  found : ∀ cluster : Id, prepared.Meets graph cluster →
    snapshot[cluster]? = some (.ofLinks (graph.scores cluster))
  missing : ∀ cluster : Id, ¬prepared.Meets graph cluster → snapshot[cluster]? = none

def cluster (prepared : Prepared) (reserved : Id) (snapshot : Linking.Snapshot) : Id :=
  (Linking.bestCluster prepared.focal prepared.scored
    (snapshot.choices prepared.focal)).getD reserved

def founds (prepared : Prepared) (snapshot : Linking.Snapshot) : Bool :=
  (Linking.bestCluster prepared.focal prepared.scored (snapshot.choices prepared.focal)).isNone

def matched (prepared : Prepared) (snapshot : Linking.Snapshot) (cluster : Id) : Scored :=
  prepared.scored.filter fun entity _ => snapshot.admits prepared.focal cluster entity

def joining (prepared : Prepared) (snapshot : Linking.Snapshot) (cluster : Id) : List EntityKey :=
  (prepared.matched snapshot cluster).keys.filter fun entity =>
    entity = prepared.focal || !snapshot.clustered.contains entity

def edges (prepared : Prepared) (snapshot : Linking.Snapshot) (cluster : Id) : List ScoredEdge :=
  (ScoreMap.symmetric prepared.focal (prepared.matched snapshot cluster)).edges cluster

structure Reports (prepared : Prepared) (reserved : Id) (snapshot : Linking.Snapshot) (outcome : LinkOutcome) :
    Prop where
  cluster : outcome.cluster = some (prepared.cluster reserved snapshot)
  newCluster : outcome.newCluster = prepared.founds snapshot
  matched : outcome.matched = prepared.matched snapshot (prepared.cluster reserved snapshot)
  deferred : ∀ entity, entity ∈ outcome.deferred ↔ entity ∈ prepared.scored ∧
    ¬snapshot.admits prepared.focal (prepared.cluster reserved snapshot) entity

theorem Reports.linked {prepared : Prepared} {reserved : Id} {snapshot : Linking.Snapshot}
    {outcome : LinkOutcome} (reports : prepared.Reports reserved snapshot outcome) :
    outcome.isSkipped = false := by
  simp [LinkOutcome.isSkipped, reports.cluster]

theorem getElem?_matched {prepared : Prepared} {snapshot : Linking.Snapshot} {cluster : Id}
    {entity : EntityKey} {score : Double}
    (found : (prepared.matched snapshot cluster)[entity]? = some score) :
    prepared.scored[entity]? = some score := by
  simp only [matched, Std.ExtTreeMap.getElem?_filter', Option.filter_eq_some_iff] at found
  exact found.1

theorem mem_matched {prepared : Prepared} {snapshot : Linking.Snapshot} {cluster : Id}
    {entity : EntityKey} :
    entity ∈ prepared.matched snapshot cluster ↔
      entity ∈ prepared.scored ∧ snapshot.admits prepared.focal cluster entity :=
  mem_filter_key

theorem focal_matched {prepared : Prepared} (focal : prepared.focal ∈ prepared.scored)
    (snapshot : Linking.Snapshot) (cluster : Id) : prepared.focal ∈ prepared.matched snapshot cluster :=
  mem_matched.mpr ⟨focal, by simp [Linking.Snapshot.admits]⟩

theorem mem_joining {prepared : Prepared} {snapshot : Linking.Snapshot} {cluster : Id}
    {entity : EntityKey} :
    entity ∈ prepared.joining snapshot cluster ↔
      entity ∈ prepared.scored ∧ (entity = prepared.focal ∨ entity ∉ snapshot.clustered) := by
  have clustered := Std.ExtTreeSet.contains_iff_mem (t := snapshot.clustered) (k := entity)
  simp only [joining, List.mem_filter, Std.ExtTreeMap.mem_keys, mem_matched,
    Linking.Snapshot.admits, Bool.or_eq_true, decide_eq_true_eq, Bool.not_eq_true',
    ← Bool.not_eq_true, clustered]
  constructor
  · rintro ⟨⟨accepted, _⟩, joins⟩
    exact ⟨accepted, joins⟩
  · rintro ⟨accepted, focal | joins⟩
    · exact ⟨⟨accepted, .inl (.inl focal)⟩, .inl focal⟩
    · exact ⟨⟨accepted, .inr joins⟩, .inr joins⟩

theorem nodup_joining (prepared : Prepared) (snapshot : Linking.Snapshot) (cluster : Id) :
    (prepared.joining snapshot cluster).Nodup :=
  Std.ExtTreeMap.nodup_keys.filter _

theorem mem_edges {prepared : Prepared} {snapshot : Linking.Snapshot} {cluster : Id}
    {scored : ScoredEdge} (listed : scored ∈ prepared.edges snapshot cluster) :
    scored.edge.cluster = cluster ∧
      ∃ entity, (prepared.matched snapshot cluster)[entity]? = some scored.score ∧
        (scored.edge.link = ⟨prepared.focal, entity⟩ ∨ scored.edge.link = ⟨entity, prepared.focal⟩) :=
  ScoreMap.mem_edges_symmetric listed

end Prepared

namespace Linking

theorem mem_choices {snapshot : Snapshot} {focal : EntityKey} {cluster : Id} {scores : ScoreMap}
    (listed : (cluster, scores) ∈ snapshot.choices focal) :
    snapshot[cluster]? = some scores := by
  simp only [Snapshot.choices] at listed
  split at listed
  · exact Std.ExtTreeMap.mem_toList_iff_getElem?_eq_some.mp listed
  · exact Std.ExtTreeMap.mem_toList_iff_getElem?_eq_some.mp (List.mem_filter.mp listed).1

/-- What a fold that keeps its value or takes the entry at hand ends with. -/
theorem mem_of_foldl {step : Option (Id × Double) → Id × ScoreMap → Option (Id × Double)}
    {list : List (Id × ScoreMap)} {known : Option (Id × Double)} {found : Id × Double}
    (takes : ∀ known entry, step known entry = some found → known = some found ∨ found.1 = entry.1)
    (same : list.foldl step known = some found) :
    known = some found ∨ ∃ scores, (found.1, scores) ∈ list := by
  induction list generalizing known with
  | nil => exact .inl same
  | cons entry list ih =>
      rcases ih same with first | ⟨scores, listed⟩
      · rcases takes known entry first with old | new
        · exact .inl old
        · exact .inr ⟨entry.2, by rw [new]; exact .head _⟩
      · exact .inr ⟨scores, .tail _ listed⟩

theorem foldl_ne_none {step : Option (Id × Double) → Id × ScoreMap → Option (Id × Double)}
    (fills : ∀ known entry, step known entry ≠ none) (entry : Id × ScoreMap)
    (list : List (Id × ScoreMap)) (known : Option (Id × Double)) :
    (entry :: list).foldl step known ≠ none := by
  induction list generalizing entry known with
  | nil => exact fills known entry
  | cons next list ih => exact ih next (step known entry)

theorem bestCluster_mem {focal : EntityKey} {scored : Scored} {clusters : List (Id × ScoreMap)}
    {cluster : Id} (best : bestCluster focal scored clusters = some cluster) :
    ∃ scores, (cluster, scores) ∈ clusters := by
  simp only [bestCluster, Option.map_eq_some_iff] at best
  obtain ⟨found, same, rfl⟩ := best
  refine (mem_of_foldl (fun known entry taken => ?_) same).resolve_left nofun
  cases known with
  | none => exact .inr (congrArg Prod.fst (Option.some.inj taken)).symm
  | some highest =>
      dsimp only at taken
      split at taken
      · exact .inr (congrArg Prod.fst (Option.some.inj taken)).symm
      · exact .inl taken

theorem bestCluster_eq_none {focal : EntityKey} {scored : Scored}
    {clusters : List (Id × ScoreMap)} (none : bestCluster focal scored clusters = none) :
    clusters = [] := by
  cases clusters with
  | nil => rfl
  | cons entry rest =>
      simp only [bestCluster, Option.map_eq_none_iff] at none
      refine absurd none (foldl_ne_none (fun known entry => ?_) entry rest _)
      cases known with
      | none => nofun
      | some highest =>
          dsimp only
          split <;> nofun

theorem choices_eq_nil {snapshot : Snapshot} {focal : EntityKey}
    (none : snapshot.choices focal = []) (cluster : Id) : snapshot[cluster]? = Option.none := by
  have empty : snapshot.toList = [] := by
    simp only [Snapshot.choices] at none
    split at none
    · exact none
    · rename_i home
      simp [none] at home
  cases known : snapshot[cluster]? with
  | none => rfl
  | some scores =>
      have listed := Std.ExtTreeMap.mem_toList_iff_getElem?_eq_some.mpr known
      simp [empty] at listed

end Linking

namespace Action

variable {mayFail : Prop} {held : LockTable} {graph : LinkGraph}

theorem under_clustersContaining {entities : EntitySet} {post : IdSet → LinkGraph → Prop}
    (inside : ∀ entity ∈ entities, entity ∈ held.members)
    (holds : ∀ ids : IdSet, (∀ cluster, cluster ∈ ids ↔ ∃ entity ∈ entities, graph.Touches cluster entity) →
      post ids graph) :
    Under mayFail held post (ClusterGraph.clustersContaining entities) graph := by
  unfold ClusterGraph.clustersContaining
  split
  · rename_i none
    refine (ensures_pure _ _).mpr (holds ∅ ?_)
    intro cluster
    simp [Std.ExtTreeSet.isEmpty_iff.mp none]
  · exact under_read inside holds

theorem under_clusters {ids : IdSet} {post : Linking.Snapshot → LinkGraph → Prop}
    (inside : ∀ cluster ∈ ids, cluster ∈ held.clusters)
    (holds : ∀ loaded, graph.Reads (.loadClusters ids) loaded → post loaded graph) :
    Under mayFail held post (ClusterGraph.clusters ids) graph := by
  unfold ClusterGraph.clusters
  split
  · rename_i none
    refine (ensures_pure _ _).mpr (holds ∅ ?_)
    intro cluster
    rw [Std.ExtTreeSet.isEmpty_iff.mp none]
    exact ⟨fun listed => absurd listed Std.ExtTreeSet.not_mem_empty, fun _ => Std.ExtTreeMap.getElem?_empty⟩
  · exact under_read inside holds

theorem under_deleteNeighborhoodIn {transaction : Transaction} {entity : EntityKey} {kept : PairSet}
    {post : Nat → LinkGraph → Prop} (inside : entity ∈ transaction.members)
    (closed : graph.Closed ⟨transaction.members, transaction.clusters⟩)
    (holds : ∀ count, post count (graph.wipe entity kept)) :
    Under mayFail ⟨transaction.members, transaction.clusters⟩ post
      (ClusterGraph.deleteNeighborhoodIn transaction entity kept) graph := by
  have member : transaction.holdsMember entity := Std.ExtTreeSet.contains_iff_mem.mpr inside
  have own : ∀ other ∈ (.ofList [entity] : EntitySet), other = entity := by
    intro other listed
    simpa only [Std.ExtTreeSet.mem_ofList, List.contains_cons, List.contains_nil, Bool.or_false,
      beq_iff_eq] using listed
  simp only [ClusterGraph.deleteNeighborhoodIn, member, Bool.not_true, Bool.false_eq_true, if_false]
  refine (ensures_bind _ _ _).mpr (under_clustersContaining ?_ ?_)
  · intro other listed
    exact own other listed ▸ inside
  · intro ids found
    have all : ids.toList.find? (fun id => !transaction.holds id) = none := by
      simp only [List.find?_eq_none, Bool.not_eq_true', Bool.not_eq_false, Transaction.holds,
        Std.ExtTreeSet.contains_iff_mem]
      intro id listed
      obtain ⟨other, same, touches⟩ := (found id).mp (Std.ExtTreeSet.mem_toList.mp listed)
      exact closed entity inside id (own other same ▸ touches)
    simp only [all]
    refine (ensures_bind _ _ _).mpr (under_write inside ?_)
    rintro written after rfl
    exact (ensures_pure _ _).mpr (holds _)

theorem stage_eq_ok (transaction : Transaction) {cluster : Id} {scores : ScoreMap}
    (held : cluster ∈ transaction.clusters)
    (inUnit : ∀ scored ∈ scores.edges cluster, scored.score.inUnit) :
    transaction.stage cluster scores =
      .ok { transaction with staged := transaction.staged ++ scores.edges cluster } := by
  have holds : transaction.holds cluster := Std.ExtTreeSet.contains_iff_mem.mpr held
  have none : (scores.edges cluster).find? (fun scored => !scored.score.inUnit) = none := by
    simp only [List.find?_eq_none, Bool.not_eq_true', Bool.not_eq_false]
    exact inUnit
  simp only [Transaction.stage, holds, none, Bool.not_true, Bool.false_eq_true, if_false]

theorem under_flush {transaction : Transaction} {post : Nat → LinkGraph → Prop}
    (inside : ∀ scored ∈ transaction.staged, scored.edge.cluster ∈ held.clusters ∧
      scored.edge.link.src ∈ held.members ∧ scored.edge.link.dst ∈ held.members)
    (holds : ∀ count, post count (graph.upsert transaction.staged)) :
    Under mayFail held post transaction.flush graph := by
  unfold Transaction.flush
  split
  · rename_i none
    refine (ensures_pure _ _).mpr ?_
    have count := holds 0
    rwa [List.isEmpty_iff.mp none] at count
  · refine (ensures_bind _ _ _).mpr (under_now ?_)
    intro now
    refine (ensures_bind _ _ _).mpr (under_write inside ?_)
    rintro written after rfl
    exact (ensures_pure _ _).mpr (holds _)

theorem ensures_choose {σ : Type} {answers : Answering σ} {safe : σ → Call → Prop}
    {refused : LinkError → σ → Prop} {state : σ} {transaction : Transaction} (prepared : Prepared)
    {snapshot : Linking.Snapshot} {reserved : Id} {post : Id × Bool → σ → Prop}
    (own : transaction.reserved = some reserved)
    (holds : post (prepared.cluster reserved snapshot, prepared.founds snapshot) state) :
    (Linking.choose transaction prepared.focal prepared.scored snapshot).Ensures answers safe refused post
      state := by
  unfold Linking.choose
  simp only [Prepared.cluster, Prepared.founds] at holds
  split
  · rename_i best
    rw [best] at holds
    exact (ensures_pure _ _).mpr holds
  · rename_i none
    rw [none] at holds
    rw [own]
    exact (ensures_pure _ _).mpr holds

end Action

namespace Prepared

structure Places (prepared : Prepared) (held : LockTable) (reserved : Id)
    (snapshot : Linking.Snapshot) (graph after : LinkGraph) : Prop where
  shows : prepared.Shows (prepared.wiped graph) snapshot
  scores : after.scores = ((prepared.wiped graph).upsert
    (prepared.edges snapshot (prepared.cluster reserved snapshot))).scores
  record : ∀ entity, after.record entity =
    if entity ∈ prepared.joining snapshot (prepared.cluster reserved snapshot) then
      (graph.record entity).map fun _ => some (prepared.cluster reserved snapshot)
    else graph.record entity
  lastTick : graph.lastTick ≤ after.lastTick
  timely : graph.Timely held → after.Timely held
  present : graph.Timely held → after.lastTick ≤ Membership.latest → ∀ cluster entity,
    after.present cluster entity =
      if entity ∈ prepared.joining snapshot (prepared.cluster reserved snapshot) then
        if cluster = prepared.cluster reserved snapshot then true
        else if graph.pointer entity = some cluster then false
        else graph.present cluster entity
      else graph.present cluster entity

def Placed (prepared : Prepared) (held : LockTable) (reserved : Id) (graph after : LinkGraph) :
    Prop :=
  ∃ snapshot, prepared.Places held reserved snapshot graph after

end Prepared

structure Transaction.Serves (transaction : Transaction) (prepared : Prepared) (reserved : Id) :
    Prop where
  members : transaction.members = prepared.members
  own : transaction.reserved = some reserved
  holds : reserved ∈ transaction.clusters
  staged : transaction.staged = []

def Transaction.locks (transaction : Transaction) : LockTable :=
  ⟨transaction.members, transaction.clusters⟩

namespace Prepared

variable {prepared : Prepared} {graph : LinkGraph} {snapshot : Linking.Snapshot}

theorem shows_of_reads {ids : IdSet}
    (found : ∀ cluster, cluster ∈ ids ↔ ∃ entity ∈ prepared.members, graph.Touches cluster entity)
    (loaded : graph.Reads (.loadClusters ids) snapshot) : prepared.Shows graph snapshot where
  found := by
    rintro cluster ⟨entity, accepted, touches⟩
    have listed := (found cluster).mpr ⟨entity, mem_members.mpr accepted, touches⟩
    refine (loaded cluster).1 listed ?_
    obtain ⟨link, _, old⟩ := touches
    intro none
    simp [none] at old
  missing := by
    intro cluster apart
    apply (loaded cluster).2
    rintro ⟨listed, _⟩
    obtain ⟨entity, member, touches⟩ := (found cluster).mp listed
    exact apart ⟨entity, mem_members.mp member, touches⟩

theorem Shows.meets_of_best (shows : prepared.Shows graph snapshot) {cluster : Id}
    (best : Linking.bestCluster prepared.focal prepared.scored (snapshot.choices prepared.focal) = some cluster) :
    prepared.Meets graph cluster := by
  refine Classical.byContradiction fun apart => ?_
  obtain ⟨scores, listed⟩ := Linking.bestCluster_mem best
  have known := Linking.mem_choices listed
  rw [shows.missing cluster apart] at known
  contradiction

theorem Shows.founds_iff (shows : prepared.Shows graph snapshot) :
    prepared.founds snapshot ↔ ∀ cluster, ¬prepared.Meets graph cluster := by
  unfold founds
  cases best : Linking.bestCluster prepared.focal prepared.scored (snapshot.choices prepared.focal) with
  | some id =>
      simp only [Option.isNone_some, Bool.false_eq_true, false_iff]
      exact fun apart => apart id (shows.meets_of_best best)
  | none =>
      simp only [Option.isNone_none, true_iff]
      intro cluster meets
      have none := Linking.choices_eq_nil (Linking.bestCluster_eq_none best) cluster
      rw [shows.found cluster meets] at none
      contradiction

/-- A pass links in a cluster that an accepted entity is in, if there is one, or in the reserved one. -/
theorem Shows.cluster_cases (shows : prepared.Shows graph snapshot) (reserved : Id) :
    prepared.Meets graph (prepared.cluster reserved snapshot) ∨
      prepared.cluster reserved snapshot = reserved ∧ ∀ cluster, ¬prepared.Meets graph cluster := by
  cases best : Linking.bestCluster prepared.focal prepared.scored
      (snapshot.choices prepared.focal) with
  | some id =>
      rw [cluster, best, Option.getD_some]
      exact .inl (shows.meets_of_best best)
  | none => exact .inr ⟨by simp [cluster, best], shows.founds_iff.mp (by simp [founds, best])⟩

theorem Shows.cluster_mem (shows : prepared.Shows graph snapshot) {reserved : Id}
    {held : LockTable} (closed : graph.Closed held)
    (members : ∀ entity ∈ prepared.scored, entity ∈ held.members)
    (holds : reserved ∈ held.clusters) : prepared.cluster reserved snapshot ∈ held.clusters := by
  rcases shows.cluster_cases reserved with ⟨entity, accepted, touches⟩ | ⟨own, _⟩
  · exact closed entity (members entity accepted) _ touches
  · rw [own]
    exact holds

theorem edges_accepted (sound : prepared.Sound) (snapshot : Linking.Snapshot) {cluster : Id} {scored : ScoredEdge}
    (listed : scored ∈ prepared.edges snapshot cluster) :
    scored.edge.cluster = cluster ∧ scored.edge.link.src ∈ prepared.scored ∧
      scored.edge.link.dst ∈ prepared.scored ∧ scored.score.inUnit := by
  obtain ⟨own, entity, found, ends⟩ := mem_edges listed
  have accepted := getElem?_matched found
  have member : entity ∈ prepared.scored := by
    rw [Std.ExtTreeMap.mem_iff_isSome_getElem?, accepted]
    rfl
  refine ⟨own, ?_, ?_, sound.inUnit entity _ accepted⟩
  · rcases ends with forth | back
    · rw [forth]
      exact sound.focal
    · rw [back]
      exact member
  · rcases ends with forth | back
    · rw [forth]
      exact member
    · rw [back]
      exact sound.focal

end Prepared

namespace Action

variable {mayFail : Prop} {graph : LinkGraph}

theorem under_settle {transaction : Transaction} {prepared : Prepared} {reserved : Id}
    {snapshot : Linking.Snapshot} {post : LinkOutcome → LinkGraph → Prop} (sound : prepared.Sound)
    (serves : transaction.Serves prepared reserved)
    (shows : prepared.Shows (prepared.wiped graph) snapshot)
    (held : prepared.cluster reserved snapshot ∈ transaction.clusters)
    (outcome : Nat → LinkOutcome) (reports : ∀ written, prepared.Reports reserved snapshot (outcome written))
    (holds : ∀ outcome after, prepared.Reports reserved snapshot outcome →
      prepared.Places transaction.locks reserved snapshot graph after → post outcome after) :
    Under mayFail transaction.locks post (do
      let written ← { transaction with
        staged := transaction.staged ++
          prepared.edges snapshot (prepared.cluster reserved snapshot) }.flush
      Linking.moveAll prepared.focal (graph.pointer prepared.focal)
        (prepared.cluster reserved snapshot)
        (prepared.joining snapshot (prepared.cluster reserved snapshot))
      let _ ← MembershipLog.join (prepared.cluster reserved snapshot)
        (.ofEntities (prepared.joining snapshot (prepared.cluster reserved snapshot)))
      return outcome written) (prepared.wiped graph) := by
  have members : ∀ entity ∈ prepared.scored, entity ∈ transaction.locks.members := by
    intro entity accepted
    rw [Transaction.locks, serves.members]
    exact Prepared.mem_members.mpr accepted
  have joins : ∀ entity ∈ prepared.joining snapshot (prepared.cluster reserved snapshot),
      entity ∈ transaction.locks.members :=
    fun entity joining => members entity (Prepared.mem_joining.mp joining).1
  rw [serves.staged, List.nil_append]
  refine (ensures_bind _ _ _).mpr (under_flush ?_ ?_)
  · intro scored listed
    obtain ⟨own, source, target, _⟩ := Prepared.edges_accepted sound snapshot listed
    exact ⟨own ▸ held, members _ source, members _ target⟩
  intro written
  refine (ensures_bind _ _ _).mpr
    (under_moveAll (prepared.nodup_joining _ _) joins (fun _ => ?_) ?_)
  · simp only [LinkGraph.pointer, LinkGraph.record_upsert, Prepared.wiped, LinkGraph.record_wipe]
  intro moved moves
  refine (ensures_bind _ _ _).mpr (under_join (fun entity listed => ?_) ?_)
  · exact joins entity (Members.has_ofEntities.mp listed)
  intro _ after joined
  have timelyThen : graph.Timely transaction.locks → ((prepared.wiped graph).upsert
      (prepared.edges snapshot (prepared.cluster reserved snapshot))).Timely transaction.locks := by
    simp only [LinkGraph.Timely, Prepared.wiped, LinkGraph.stamps_upsert, LinkGraph.stamps_wipe,
      LinkGraph.lastTick_upsert, LinkGraph.lastTick_wipe, imp_self]
  refine (ensures_pure _ _).mpr (holds _ after (reports written) ⟨shows, ?_, ?_, ?_, ?_, ?_⟩)
  · exact joined.scores.trans moves.scores
  · intro entity
    rw [joined.record, moves.record]
    simp only [Prepared.wiped, LinkGraph.record_upsert, LinkGraph.record_wipe]
  · have order := moves.lastTick
    simp only [Prepared.wiped, LinkGraph.lastTick_upsert, LinkGraph.lastTick_wipe] at order
    exact Int.le_trans order joined.lastTick
  · exact fun timely => joined.timely (moves.timely (timelyThen timely))
  · intro timely bound cluster entity
    rw [joined.present (moves.timely (timelyThen timely)) bound,
      moves.present (timelyThen timely) (Int.le_trans joined.lastTick bound)]
    simp only [Members.has_ofEntities, LinkGraph.pointer, Prepared.wiped, LinkGraph.record_upsert,
      LinkGraph.record_wipe, LinkGraph.present_upsert, LinkGraph.present_wipe]
    by_cases joining : entity ∈ prepared.joining snapshot (prepared.cluster reserved snapshot)
    · by_cases own : cluster = prepared.cluster reserved snapshot
      · simp [joining, own]
      · by_cases left : (graph.record entity).join = some cluster <;>
          simp [joining, own, Ne.symm own, left]
    · simp [joining]

theorem under_place {transaction : Transaction} {prepared : Prepared} {reserved : Id}
    {post : LinkOutcome → LinkGraph → Prop} (sound : prepared.Sound)
    (serves : transaction.Serves prepared reserved) (closed : graph.Closed transaction.locks)
    (holds : ∀ snapshot outcome after, prepared.Reports reserved snapshot outcome →
      prepared.Places transaction.locks reserved snapshot graph after → post outcome after) :
    Under mayFail transaction.locks post
      (Linking.place transaction prepared.focal prepared.scored prepared.positive) graph := by
  have members : ∀ entity ∈ prepared.scored, entity ∈ transaction.locks.members := by
    intro entity accepted
    rw [Transaction.locks, serves.members]
    exact Prepared.mem_members.mpr accepted
  have focal := members _ sound.focal
  have closedThen : (prepared.wiped graph).Closed transaction.locks :=
    (LinkGraph.within_wipe focal closed).closed closed
  unfold Linking.place
  refine (ensures_bind _ _ _).mpr (under_pointer focal ?_)
  refine (ensures_bind _ _ _).mpr (under_deleteNeighborhoodIn focal closed ?_)
  intro _
  refine (ensures_bind _ _ _).mpr (under_clustersContaining ?_ ?_)
  · intro entity member
    exact members entity (Prepared.mem_members.mp member)
  intro ids found
  refine (ensures_bind _ _ _).mpr (under_clusters ?_ ?_)
  · intro cluster listed
    obtain ⟨entity, member, touches⟩ := (found cluster).mp listed
    exact closedThen entity (members entity (Prepared.mem_members.mp member)) cluster touches
  intro snapshot loaded
  have shows : prepared.Shows (prepared.wiped graph) snapshot :=
    Prepared.shows_of_reads found loaded
  refine (ensures_bind _ _ _).mpr (ensures_choose prepared serves.own ?_)
  have held := shows.cluster_mem closedThen members serves.holds
  have staged := stage_eq_ok transaction held
    fun scored listed => (Prepared.edges_accepted sound snapshot listed).2.2.2
  dsimp only
  split
  · rename_i refused
    cases refused.symm.trans staged
  · rename_i accepted
    cases accepted.symm.trans staged
    refine under_settle sound serves shows held _ (fun _ => ⟨rfl, rfl, rfl, fun entity => ?_⟩) (holds snapshot)
    simp [Std.ExtTreeMap.mem_keys]

end Action

end RecordLinkage
