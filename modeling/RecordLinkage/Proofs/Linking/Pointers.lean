import RecordLinkage.Proofs.Linking.Preparing

/-! Every edge that touches an entity lies in one cluster, the one that its link pointer names if it has
one. Passes, feedback, deletions and the index keep that so. -/

namespace RecordLinkage

namespace Linking.Snapshot

variable {snapshot : Snapshot} {entity : EntityKey}

theorem mem_clustered : entity ∈ snapshot.clustered ↔
    ∃ (cluster : Id) (scores : ScoreMap), snapshot[cluster]? = some scores ∧
      entity ∈ scores.members := by
  have folded : ∀ (list : List (Id × ScoreMap)) (known : EntitySet),
      entity ∈ list.foldl (fun entities entry => entities.insertMany entry.2.members.toList)
        known ↔ entity ∈ known ∨ ∃ entry ∈ list, entity ∈ entry.2.members := by
    intro list
    induction list with
    | nil => simp
    | cons entry list ih =>
        intro known
        rw [List.foldl_cons, ih, Std.ExtTreeSet.mem_insertMany_list]
        simp [or_assoc]
  refine (folded _ _).trans ?_
  simp only [Std.ExtTreeSet.not_mem_empty, false_or, Prod.exists,
    Std.ExtTreeMap.mem_toList_iff_getElem?_eq_some]

/-- If an entity is in a cluster then so it is in every one to choose from. -/
theorem mem_of_choices {focal : EntityKey} {cluster : Id} {scores : ScoreMap}
    (home : focal ∈ snapshot.clustered) (listed : (cluster, scores) ∈ snapshot.choices focal) :
    focal ∈ scores.members := by
  obtain ⟨other, otherScores, known, member⟩ := mem_clustered.mp home
  simp only [choices] at listed
  split at listed
  · rename_i none
    have own : (other, otherScores) ∈ snapshot.toList.filter
        fun entry => entry.2.members.contains focal :=
      List.mem_filter.mpr ⟨Std.ExtTreeMap.mem_toList_iff_getElem?_eq_some.mpr known,
        Std.ExtTreeSet.contains_iff_mem.mpr member⟩
    rw [List.isEmpty_iff.mp none] at own
    contradiction
  · exact Std.ExtTreeSet.contains_iff_mem.mp (List.mem_filter.mp listed).2

end Linking.Snapshot

namespace Prepared

variable {prepared : Prepared} {graph : LinkGraph} {snapshot : Linking.Snapshot}

theorem Shows.known (shows : prepared.Shows graph snapshot) {cluster : Id} {scores : ScoreMap}
    (known : snapshot[cluster]? = some scores) :
    prepared.Meets graph cluster ∧ scores = .ofLinks (graph.scores cluster) := by
  have meets : prepared.Meets graph cluster := by
    apply Classical.byContradiction
    intro apart
    rw [shows.missing cluster apart] at known
    contradiction
  rw [shows.found cluster meets, Option.some.injEq] at known
  exact ⟨meets, known.symm⟩

theorem Shows.clustered (shows : prepared.Shows graph snapshot) {entity : EntityKey}
    (accepted : entity ∈ prepared.scored) :
    entity ∈ snapshot.clustered ↔ ∃ cluster, graph.Touches cluster entity := by
  rw [Linking.Snapshot.mem_clustered]
  constructor
  · rintro ⟨cluster, scores, known, member⟩
    obtain ⟨_, rfl⟩ := shows.known known
    exact ⟨cluster, ScoreMap.mem_members_ofLinks.mp member⟩
  · rintro ⟨cluster, touches⟩
    exact ⟨cluster, _, shows.found cluster ⟨entity, accepted, touches⟩,
      ScoreMap.mem_members_ofLinks.mpr touches⟩

theorem Shows.touches_of_member (shows : prepared.Shows graph snapshot) {cluster : Id}
    {entity : EntityKey} (member : entity ∈ snapshot.membersOf cluster) :
    graph.Touches cluster entity := by
  rw [Linking.Snapshot.membersOf, Std.ExtTreeMap.getD_eq_getD_getElem?] at member
  cases known : snapshot[cluster]? with
  | none =>
      rw [known] at member
      obtain ⟨link, _, scored⟩ := (ScoreMap.mem_members ScoreMap.filled_empty).mp member
      simp [ScoreMap.score?] at scored
  | some scores =>
      obtain ⟨_, rfl⟩ := shows.known known
      rw [known] at member
      exact ScoreMap.mem_members_ofLinks.mp member

theorem Shows.focal_touches (shows : prepared.Shows graph snapshot) (sound : prepared.Sound)
    (reserved : Id) {cluster : Id} (touches : graph.Touches cluster prepared.focal) :
    graph.Touches (prepared.cluster reserved snapshot) prepared.focal := by
  have home := (shows.clustered sound.focal).mpr ⟨cluster, touches⟩
  cases best : Linking.bestCluster prepared.focal prepared.scored
      (snapshot.choices prepared.focal) with
  | some id =>
      obtain ⟨scores, listed⟩ := Linking.bestCluster_mem best
      have member := Linking.Snapshot.mem_of_choices home listed
      obtain ⟨_, rfl⟩ := shows.known (Linking.mem_choices listed)
      simp only [Prepared.cluster, best, Option.getD_some]
      exact ScoreMap.mem_members_ofLinks.mp member
  | none =>
      have none := Linking.choices_eq_nil (Linking.bestCluster_eq_none best) cluster
      rw [shows.found cluster ⟨_, sound.focal, touches⟩] at none
      contradiction

theorem Shows.matched_touches (shows : prepared.Shows graph snapshot) (sound : prepared.Sound)
    (reserved : Id) {entity : EntityKey} {cluster : Id} (touches : graph.Touches cluster entity)
    (matched : entity ∈ prepared.matched snapshot (prepared.cluster reserved snapshot)) :
    graph.Touches (prepared.cluster reserved snapshot) entity := by
  obtain ⟨accepted, admits⟩ := mem_matched.mp matched
  simp only [Linking.Snapshot.admits, Bool.or_eq_true, decide_eq_true_eq, Bool.not_eq_true',
    ← Bool.not_eq_true, Std.ExtTreeSet.contains_iff_mem] at admits
  rcases admits with (rfl | member) | unclustered
  · exact shows.focal_touches sound reserved touches
  · exact shows.touches_of_member member
  · exact absurd ((shows.clustered accepted).mpr ⟨cluster, touches⟩) unclustered

end Prepared

namespace LinkGraph

structure Consistent (graph : LinkGraph) : Prop where
  single : ∀ entity cluster other, graph.Touches cluster entity → graph.Touches other entity →
    cluster = other
  pointed : ∀ entity cluster, graph.pointer entity = some cluster →
    ∀ other, graph.Touches other entity → other = cluster

theorem Consistent.shrunk {graph after : LinkGraph} (consistent : graph.Consistent)
    (touches : ∀ cluster entity, after.Touches cluster entity → graph.Touches cluster entity)
    (pointer : ∀ entity, after.pointer entity = graph.pointer entity) : after.Consistent where
  single := fun entity cluster other here there =>
    consistent.single entity cluster other (touches _ _ here) (touches _ _ there)
  pointed := by
    intro entity cluster points other touched
    rw [pointer] at points
    exact consistent.pointed entity cluster points other (touches _ _ touched)

theorem touches_upsert {graph : LinkGraph} {prepared : Prepared} {snapshot : Linking.Snapshot}
    {cluster other : Id} {entity : EntityKey} (focal : prepared.focal ∈ prepared.scored)
    (touches : (graph.upsert (prepared.edges snapshot cluster)).Touches other entity) :
    graph.Touches other entity ∨
      other = cluster ∧ entity ∈ prepared.matched snapshot cluster := by
  obtain ⟨link, about, listed⟩ := touches
  rcases mem_scores_upsert.mp listed with old | ⟨scored, new, same⟩
  · exact .inl ⟨link, about, old⟩
  · obtain ⟨own, matched, found, ends⟩ := Prepared.mem_edges new
    have home := Prepared.focal_matched focal snapshot cluster
    have member : matched ∈ prepared.matched snapshot cluster := by
      rw [Std.ExtTreeMap.mem_iff_isSome_getElem?, found]
      rfl
    rw [same] at own ends
    refine .inr ⟨own, ?_⟩
    simp only [Link.touches, Bool.or_eq_true, decide_eq_true_eq] at about
    dsimp only at ends
    rcases ends with rfl | rfl <;> rcases about with rfl | rfl
    · exact home
    · exact member
    · exact member
    · exact home

theorem Consistent.placed {graph after : LinkGraph} {prepared : Prepared} {held : LockTable}
    {reserved : Id} (consistent : graph.Consistent) (sound : prepared.Sound)
    (placed : prepared.Placed held reserved graph after) : after.Consistent := by
  obtain ⟨snapshot, places⟩ := placed
  let chosen := prepared.cluster reserved snapshot
  have wiped : (prepared.wiped graph).Consistent :=
    consistent.shrunk (fun _ _ => touches_wipe) fun _ => rfl
  have own : ∀ entity cluster, (prepared.wiped graph).Touches cluster entity →
      entity ∈ prepared.matched snapshot chosen → cluster = chosen :=
    fun entity cluster touches matched => wiped.single entity cluster chosen touches
      (places.shows.matched_touches sound reserved touches matched)
  have touched : ∀ cluster entity, after.Touches cluster entity →
      (prepared.wiped graph).Touches cluster entity ∨
        cluster = chosen ∧ entity ∈ prepared.matched snapshot chosen := by
    intro cluster entity touches
    rw [Touches, places.scores] at touches
    exact touches_upsert sound.focal touches
  constructor
  case single =>
    intro entity cluster other here there
    rcases touched cluster entity here with old | ⟨rfl, matched⟩ <;>
      rcases touched other entity there with oldOther | ⟨rfl, matchedOther⟩
    · exact wiped.single entity cluster other old oldOther
    · exact own entity cluster old matchedOther
    · exact (own entity other oldOther matched).symm
    · rfl
  case pointed =>
    intro entity cluster points other touches
    rw [pointer, places.record] at points
    by_cases joining : entity ∈ prepared.joining snapshot chosen
    · -- The pointer of an entity that joins names the chosen cluster.
      have same : cluster = chosen := by
        rw [if_pos joining] at points
        cases known : graph.record entity <;> simp_all [chosen]
      have matched : entity ∈ prepared.matched snapshot chosen := (List.mem_filter.mp joining).1 |>
        Std.ExtTreeMap.mem_keys.mp
      rw [same]
      rcases touched other entity touches with old | ⟨here, _⟩
      · exact own entity other old matched
      · exact here
    · -- Any other entity keeps its pointer, and gets an edge only where it has one.
      rw [if_neg joining] at points
      rcases touched other entity touches with old | ⟨rfl, matched⟩
      · exact consistent.pointed entity cluster points other (touches_wipe old)
      · obtain ⟨accepted, _⟩ := Prepared.mem_matched.mp matched
        have clustered : entity ∈ snapshot.clustered := by
          apply Classical.byContradiction
          intro apart
          exact joining (Prepared.mem_joining.mpr ⟨accepted, .inr apart⟩)
        obtain ⟨home, old⟩ := (places.shows.clustered accepted).mp clustered
        exact consistent.pointed entity cluster points chosen
          (touches_wipe (places.shows.matched_touches sound reserved old matched))

end LinkGraph

end RecordLinkage
