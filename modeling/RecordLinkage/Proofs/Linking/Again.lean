import Mathlib.Tactic.Tauto
import RecordLinkage.Proofs.Linking.Informed
import RecordLinkage.Proofs.Linking.Serial
import RecordLinkage.Proofs.Match.Stars

/-! Linking an entity twice. The second pass first removes the rows that the first one wrote, except those that
feedback protects. If none of them stays and the first pass started a cluster then no trace of it is left to
choose, and the second one starts another; otherwise it finds back and leaves everything as it was. -/

namespace RecordLinkage

namespace LinkGraph

theorem getElem?_wipe (graph : LinkGraph) (entity : EntityKey) (kept : PairSet) (cluster : Id) (link : Link) :
    ((graph.wipe entity kept).scores cluster)[link]? =
      if link.touches entity ∧ link.pair ∉ kept then none else (graph.scores cluster)[link]? := by
  simp only [wipe, Std.ExtTreeMap.getElem?_filter']
  cases (graph.scores cluster)[link]? with
  | none => simp
  | some score => by_cases touches : link.touches entity <;> by_cases listed : link.pair ∈ kept <;> simp_all

/-- A written edge has a score that was written for it, and every other one keeps its score. -/
theorem getElem?_upsert (graph : LinkGraph) (edges : List ScoredEdge) (cluster : Id) (link : Link) :
    (∃ scored ∈ edges, scored.edge = ⟨cluster, link⟩ ∧
      ((graph.upsert edges).scores cluster)[link]? = some scored.score) ∨
    (∀ scored ∈ edges, scored.edge ≠ ⟨cluster, link⟩) ∧
      ((graph.upsert edges).scores cluster)[link]? = (graph.scores cluster)[link]? := by
  induction edges generalizing graph with
  | nil => exact .inr ⟨by simp, rfl⟩
  | cons scored edges ih =>
      change (∃ other ∈ scored :: edges, other.edge = ⟨cluster, link⟩ ∧
        (((graph.put scored).upsert edges).scores cluster)[link]? = _) ∨ _ ∧
        (((graph.put scored).upsert edges).scores cluster)[link]? = _
      rcases ih (graph.put scored) with ⟨other, listed, own, found⟩ | ⟨apart, same⟩
      · exact .inl ⟨other, .tail _ listed, own, found⟩
      · rw [same]
        by_cases own : scored.edge = ⟨cluster, link⟩
        · exact .inl ⟨scored, .head _, own, by simp [put, own]⟩
        · refine .inr ⟨List.forall_mem_cons.mpr ⟨own, apart⟩, ?_⟩
          simp only [put]
          split
          · rename_i here
            have other : scored.edge.link ≠ link := fun there => own (congr (congrArg Edge.mk here) there)
            rw [Std.ExtTreeMap.getElem?_insert, if_neg (by simpa using other)]
          · rfl

end LinkGraph

namespace Prepared

variable {prepared : Prepared} {graph other after : LinkGraph} {held : LockTable} {reserved : Id}
  {snapshot : Linking.Snapshot} {cluster : Id} {entity : EntityKey}

abbrev taken (prepared : Prepared) (reserved : Id) (snapshot : Linking.Snapshot) : Scored :=
  prepared.matched snapshot (prepared.cluster reserved snapshot)

/-- The scores after a pass, those of its matches and what is left of the others. -/
theorem Places.getElem?_scores (places : prepared.Places held reserved snapshot graph after) (cluster : Id)
    (link : Link) : (after.scores cluster)[link]? =
      (if cluster = prepared.cluster reserved snapshot then
        ScoreMap.star prepared.focal (prepared.taken reserved snapshot) link else none).or
      (if link.touches prepared.focal ∧ link.pair ∉ prepared.positive then none
        else (graph.scores cluster)[link]?) := by
  rw [places.scores, ← LinkGraph.getElem?_wipe]
  have listed {scored : ScoredEdge} (edge : scored.edge = ⟨cluster, link⟩) :
      scored ∈ prepared.edges snapshot (prepared.cluster reserved snapshot) ↔
        cluster = prepared.cluster reserved snapshot ∧
          ScoreMap.star prepared.focal (prepared.taken reserved snapshot) link = some scored.score := by
    rw [edges, ScoreMap.mem_edges, ScoreMap.score?_symmetric_eq, edge]
  rcases LinkGraph.getElem?_upsert (prepared.wiped graph)
    (prepared.edges snapshot (prepared.cluster reserved snapshot)) cluster link with
    ⟨scored, member, own, found⟩ | ⟨apart, same⟩
  · obtain ⟨here, known⟩ := (listed own).mp member
    rw [found, if_pos here, known, Option.some_or]
  · rw [same]
    split
    · rename_i here
      cases known : ScoreMap.star prepared.focal (prepared.taken reserved snapshot) link with
      | none => rfl
      | some score =>
          have edge : (⟨⟨cluster, link⟩, score⟩ : ScoredEdge).edge = ⟨cluster, link⟩ := rfl
          exact absurd rfl (apart _ ((listed edge).mpr ⟨here, known⟩))
    · rfl

theorem Shows.unique {snapshotOther : Linking.Snapshot} (shows : prepared.Shows graph snapshot)
    (showsOther : prepared.Shows other snapshotOther) (same : graph.scores = other.scores) :
    snapshot = snapshotOther := by
  have meets (cluster : Id) : prepared.Meets graph cluster ↔ prepared.Meets other cluster := by
    simp only [Meets, LinkGraph.Touches, same]
  apply Std.ExtTreeMap.ext_getElem?
  intro cluster
  by_cases found : prepared.Meets graph cluster
  · rw [shows.found cluster found, showsOther.found cluster ((meets cluster).mp found), same]
  · rw [shows.missing cluster found, showsOther.missing cluster fun met => found ((meets cluster).mpr met)]

theorem matched_congr {snapshotOther : Linking.Snapshot} {clusterOther : Id}
    (same : ∀ entity ∈ prepared.scored, snapshot.admits prepared.focal cluster entity =
      snapshotOther.admits prepared.focal clusterOther entity) :
    prepared.matched snapshot cluster = prepared.matched snapshotOther clusterOther := by
  apply Std.ExtTreeMap.ext_getElem?
  intro entity
  simp only [matched, Std.ExtTreeMap.getElem?_filter']
  cases found : prepared.scored[entity]? with
  | none => rfl
  | some score =>
      rw [same entity (Std.ExtTreeMap.mem_iff_isSome_getElem?.mpr (Option.isSome_of_eq_some found))]

/-- Accepted entities that are not matched are deferred. -/
theorem Reports.deferred_eq {reservedOther : Id} {snapshotOther : Linking.Snapshot}
    {outcome outcomeOther : LinkOutcome} (reports : prepared.Reports reserved snapshot outcome)
    (reportsOther : prepared.Reports reservedOther snapshotOther outcomeOther)
    (same : outcome.matched = outcomeOther.matched) : outcome.deferred = outcomeOther.deferred := by
  have left {reserved : Id} {snapshot : Linking.Snapshot} {outcome : LinkOutcome}
      (reports : prepared.Reports reserved snapshot outcome) (entity : EntityKey) :
      entity ∈ outcome.deferred ↔ entity ∈ prepared.scored ∧ entity ∉ outcome.matched := by
    rw [reports.deferred, reports.matched, mem_matched]
    tauto
  apply Std.ExtTreeSet.ext_mem
  intro entity
  rw [left reports, left reportsOther, same]

def Protects (prepared : Prepared) (matched : Scored) : Prop :=
  ∃ entity ∈ matched, EntityPair.of prepared.focal entity ∈ prepared.positive

theorem ends_of_star {matched : Scored} {link : Link} {score : Double}
    (found : ScoreMap.star prepared.focal matched link = some score) :
    link.touches prepared.focal ∧ ∃ entity ∈ matched, link.pair = EntityPair.of prepared.focal entity ∧
      (link = ⟨prepared.focal, entity⟩ ∨ link = ⟨entity, prepared.focal⟩) := by
  obtain ⟨entity, known, ends⟩ := ScoreMap.star_eq_some.mp found
  have member : entity ∈ matched := Std.ExtTreeMap.mem_iff_isSome_getElem?.mpr (Option.isSome_of_eq_some known)
  rcases ends with rfl | rfl
  · exact ⟨by simp [Link.touches], entity, member, rfl, .inl rfl⟩
  · exact ⟨by simp [Link.touches], entity, member, EntityPair.of_comm _ _, .inr rfl⟩

/-- What a second pass finds once it has removed the rows of the focal entity. -/
theorem Places.getElem?_wiped (places : prepared.Places held reserved snapshot graph after) (cluster : Id)
    (link : Link) : ((prepared.wiped after).scores cluster)[link]? =
      if link.touches prepared.focal ∧ link.pair ∉ prepared.positive then none
      else (if cluster = prepared.cluster reserved snapshot then
        ScoreMap.star prepared.focal (prepared.taken reserved snapshot) link else none).or
        (graph.scores cluster)[link]? := by
  rw [wiped, LinkGraph.getElem?_wipe, places.getElem?_scores]
  split <;> rfl

/-- Nothing is left of a pass whose matches feedback does not protect. -/
theorem Places.wiped_eq (places : prepared.Places held reserved snapshot graph after)
    (bare : ¬prepared.Protects (prepared.taken reserved snapshot)) :
    (prepared.wiped after).scores = (prepared.wiped graph).scores := by
  funext cluster
  apply Std.ExtTreeMap.ext_getElem?
  intro link
  rw [places.getElem?_wiped, wiped, LinkGraph.getElem?_wipe]
  split
  · rfl
  · rename_i spared
    have none : ScoreMap.star prepared.focal (prepared.taken reserved snapshot) link = none := by
      refine Option.eq_none_iff_forall_not_mem.mpr fun score found => ?_
      obtain ⟨touches, entity, member, own, _⟩ := ends_of_star found
      exact spared ⟨touches, fun protects => bare ⟨entity, member, own ▸ protects⟩⟩
    simp [none]

/-- A row that a second pass leaves was left by the first one, or it leads to a match that feedback protects. -/
theorem Places.mem_wiped (places : prepared.Places held reserved snapshot graph after) {link : Link} :
    link ∈ (prepared.wiped after).scores cluster ↔ link ∈ (prepared.wiped graph).scores cluster ∨
      cluster = prepared.cluster reserved snapshot ∧ ∃ other ∈ prepared.taken reserved snapshot,
        EntityPair.of prepared.focal other ∈ prepared.positive ∧
          (link = ⟨prepared.focal, other⟩ ∨ link = ⟨other, prepared.focal⟩) := by
  rw [Std.ExtTreeMap.mem_iff_isSome_getElem?, Std.ExtTreeMap.mem_iff_isSome_getElem?, places.getElem?_wiped, wiped,
    LinkGraph.getElem?_wipe]
  split
  · rename_i bare
    simp only [Option.isSome_none, Bool.false_eq_true, false_or, false_iff]
    rintro ⟨_, other, _, protects, rfl | rfl⟩
    · exact bare.2 protects
    · rw [EntityPair.of_comm] at protects
      exact bare.2 protects
  · rename_i spared
    rw [Option.isSome_or, Bool.or_eq_true, or_comm]
    refine or_congr_right ⟨fun found => ?_, ?_⟩
    · split at found
      · rename_i own
        obtain ⟨score, star⟩ := Option.isSome_iff_exists.mp found
        obtain ⟨touches, other, taken, same, ends⟩ := ends_of_star star
        exact ⟨own, other, taken, same ▸ Classical.byContradiction fun bare => spared ⟨touches, bare⟩, ends⟩
      · cases found
    · rintro ⟨rfl, other, taken, _, ends⟩
      obtain ⟨score, known⟩ := Option.isSome_iff_exists.mp (Std.ExtTreeMap.mem_iff_isSome_getElem?.mp taken)
      rw [if_pos rfl, ScoreMap.star_eq_some.mpr ⟨other, known, ends⟩]
      rfl

/-- Whoever is in a cluster then was there before the first pass, or a protected row has it there. -/
theorem Places.touches_wiped (places : prepared.Places held reserved snapshot graph after) :
    (prepared.wiped after).Touches cluster entity ↔ (prepared.wiped graph).Touches cluster entity ∨
      cluster = prepared.cluster reserved snapshot ∧ ∃ other ∈ prepared.taken reserved snapshot,
        EntityPair.of prepared.focal other ∈ prepared.positive ∧ (entity = prepared.focal ∨ entity = other) := by
  constructor
  · rintro ⟨link, about, left⟩
    rcases places.mem_wiped.mp left with old | ⟨own, other, taken, protects, ends⟩
    · exact .inl ⟨link, about, old⟩
    · refine .inr ⟨own, other, taken, protects, ?_⟩
      rcases ends with rfl | rfl <;> simp [Link.touches] at about <;> tauto
  · rintro (⟨link, about, old⟩ | ⟨rfl, other, taken, protects, ends⟩)
    · exact ⟨link, about, places.mem_wiped.mpr (.inl old)⟩
    · refine ⟨⟨prepared.focal, other⟩, ?_, places.mem_wiped.mpr (.inr ⟨rfl, other, taken, protects, .inl rfl⟩)⟩
      rcases ends with rfl | rfl <;> simp [Link.touches]

/-- If no row of the focal entity was left then all that it has are those of its matches. -/
theorem Places.star_of_homeless (places : prepared.Places held reserved snapshot graph after)
    (homeless : ∀ cluster, ¬(prepared.wiped graph).Touches cluster prepared.focal) {link : Link}
    (touches : link.touches prepared.focal) : (after.scores cluster)[link]? =
      if cluster = prepared.cluster reserved snapshot then
        ScoreMap.star prepared.focal (prepared.taken reserved snapshot) link else none := by
  have none : ((prepared.wiped graph).scores cluster)[link]? = none :=
    Std.ExtTreeMap.getElem?_eq_none fun listed => homeless cluster ⟨link, touches, listed⟩
  rw [places.getElem?_scores, ← LinkGraph.getElem?_wipe]
  exact (congrArg (Option.or _) none).trans Option.or_none

def Rooted (prepared : Prepared) (reserved : Id) (snapshot : Linking.Snapshot) : Prop :=
  prepared.founds snapshot = false ∨ prepared.Protects (prepared.taken reserved snapshot)

theorem Places.homeless (places : prepared.Places held reserved snapshot graph after)
    (uprooted : ¬prepared.Rooted reserved snapshot) (accepted : entity ∈ prepared.scored) (cluster : Id) :
    ¬(prepared.wiped graph).Touches cluster entity := by
  have founds : prepared.founds snapshot := by
    simpa using fun some => uprooted (.inl some)
  exact fun touches => places.shows.founds_iff.mp founds cluster ⟨entity, accepted, touches⟩

theorem Places.homeless_again (places : prepared.Places held reserved snapshot graph after)
    (uprooted : ¬prepared.Rooted reserved snapshot) (accepted : entity ∈ prepared.scored) (cluster : Id) :
    ¬(prepared.wiped after).Touches cluster entity := by
  rw [LinkGraph.Touches, places.wiped_eq fun protects => uprooted (.inr protects)]
  exact places.homeless uprooted accepted cluster

section Twice

variable {middle : LinkGraph} {heldAgain : LockTable} {reservedAgain : Id} {snapshotAgain : Linking.Snapshot}
  (first : prepared.Places held reserved snapshot graph middle)
  (second : prepared.Places heldAgain reservedAgain snapshotAgain middle after)
include first second

/-- Whoever joins again has joined before. -/
theorem joining_again (joins : entity ∈ prepared.joining snapshotAgain (prepared.cluster reservedAgain snapshotAgain)) :
    entity ∈ prepared.joining snapshot (prepared.cluster reserved snapshot) := by
  obtain ⟨accepted, reason⟩ := mem_joining.mp joins
  refine mem_joining.mpr ⟨accepted, reason.imp_right fun outside known => outside ?_⟩
  obtain ⟨cluster, touches⟩ := (first.shows.clustered accepted).mp known
  exact (second.shows.clustered accepted).mpr ⟨cluster, first.touches_wiped.mpr (.inl touches)⟩

section Rooted

variable (consistent : middle.Consistent) (sound : prepared.Sound) (rooted : prepared.Rooted reserved snapshot)
include consistent sound rooted

theorem cluster_again : prepared.cluster reservedAgain snapshotAgain = prepared.cluster reserved snapshot ∧
    prepared.founds snapshotAgain = false := by
  have founded {snapshot : Linking.Snapshot} {graph : LinkGraph} (shows : prepared.Shows graph snapshot)
      {cluster : Id} (meets : prepared.Meets graph cluster) : prepared.founds snapshot = false := by
    rw [← Bool.not_eq_true, shows.founds_iff]
    exact fun apart => apart cluster meets
  by_cases protects : prepared.Protects (prepared.taken reserved snapshot)
  · -- The focal entity is still at home.
    obtain ⟨other, taken, protects⟩ := protects
    have home : (prepared.wiped middle).Touches (prepared.cluster reserved snapshot) prepared.focal :=
      first.touches_wiped.mpr (.inr ⟨rfl, other, taken, protects, .inl rfl⟩)
    have wiped : (prepared.wiped middle).Consistent :=
      consistent.shrunk (fun _ _ => LinkGraph.touches_wipe) fun _ => rfl
    exact ⟨wiped.single _ _ _ (second.shows.focal_touches sound reservedAgain home) home,
      founded second.shows ⟨_, sound.focal, home⟩⟩
  · -- The choice is the same, and it is not the reserved cluster.
    have same := second.shows.unique first.shows (first.wiped_eq protects)
    have some := rooted.resolve_right protects
    refine ⟨?_, same ▸ some⟩
    obtain ⟨cluster, best⟩ := Option.isSome_iff_exists.mp (show Option.isSome _ by simpa [founds] using some)
    rw [same, Prepared.cluster, Prepared.cluster, best]
    rfl

theorem taken_again : prepared.taken reservedAgain snapshotAgain = prepared.taken reserved snapshot := by
  obtain ⟨same, _⟩ := cluster_again first second consistent sound rooted
  refine matched_congr fun entity accepted => Bool.eq_iff_iff.mpr ?_
  rw [second.shows.admits_iff accepted, first.shows.admits_iff accepted, same]
  have taken {other : EntityKey} (member : other ∈ prepared.taken reserved snapshot) :
      other = prepared.focal ∨ (prepared.wiped graph).Touches (prepared.cluster reserved snapshot) other ∨
        ∀ cluster, ¬(prepared.wiped graph).Touches cluster other :=
    (first.shows.admits_iff (mem_matched.mp member).1).mp (mem_matched.mp member).2
  constructor
  · rintro (own | here | nowhere)
    · exact .inl own
    · rcases first.touches_wiped.mp here with old | ⟨_, other, member, _, own | rfl⟩
      · exact .inr (.inl old)
      · exact .inl own
      · exact taken member
    · exact .inr (.inr fun cluster old => nowhere cluster (first.touches_wiped.mpr (.inl old)))
  · rintro (own | here | nowhere)
    · exact .inl own
    · exact .inr (.inl (first.touches_wiped.mpr (.inl here)))
    · -- It is in no other cluster than where the first pass put it.
      by_cases known : (prepared.wiped middle).Touches (prepared.cluster reserved snapshot) entity
      · exact .inr (.inl known)
      · refine .inr (.inr fun cluster found => ?_)
        rcases first.touches_wiped.mp found with old | ⟨rfl, _⟩
        · exact nowhere cluster old
        · exact known found

theorem scores_again : after.scores = middle.scores := by
  obtain ⟨same, _⟩ := cluster_again first second consistent sound rooted
  funext cluster
  apply Std.ExtTreeMap.ext_getElem?
  intro link
  rw [second.getElem?_scores, taken_again first second consistent sound rooted, same, first.getElem?_scores]
  generalize (if cluster = prepared.cluster reserved snapshot then _ else none) = written
  split
  · rfl
  · rw [← Option.or_assoc, Option.or_self]

/-- A second pass that finds back leaves everything as it was. -/
theorem matches_again (punctual : graph.Punctual) (within : graph.Within held middle)
    (withinAgain : middle.Within heldAgain after) : after.Matches (fun _ => True) middle := by
  obtain ⟨same, _⟩ := cluster_again first second consistent sound rooted
  have punctualMiddle : middle.Punctual := punctual.placed ⟨_, first⟩ within
  have punctualAfter : after.Punctual := punctualMiddle.placed ⟨_, second⟩ withinAgain
  have pointer {entity : EntityKey}
      (joins : entity ∈ prepared.joining snapshotAgain (prepared.cluster reservedAgain snapshotAgain)) :
      middle.record entity = (graph.record entity).map fun _ => some (prepared.cluster reserved snapshot) := by
    rw [first.record, if_pos (joining_again first second joins)]
  refine ⟨fun cluster _ => by rw [scores_again first second consistent sound rooted], ?_, ?_,
    fun entity _ => punctualAfter entity, fun entity _ => punctualMiddle entity⟩
  · intro entity _
    rw [second.record]
    split
    · rename_i joins
      rw [pointer joins, Option.map_map, same]
      rfl
    · rfl
  · intro bound boundMiddle cluster entity _
    rw [second.present (punctualMiddle.timely _) bound]
    split
    · rename_i joins
      have joined := joining_again first second joins
      split
      · rename_i here
        rw [first.present (punctual.timely _) boundMiddle, if_pos joined, if_pos (here.trans same)]
      · rename_i elsewhere
        rw [if_neg]
        rw [LinkGraph.pointer, pointer joins]
        intro points
        cases known : graph.record entity <;> simp_all
    · rfl

end Rooted

section Uprooted

variable (uprooted : ¬prepared.Rooted reserved snapshot)
include uprooted

/-- A pass that finds no trace of the first one starts a cluster again. -/
theorem founded_again : prepared.founds snapshotAgain ∧
    prepared.cluster reservedAgain snapshotAgain = reservedAgain ∧
    prepared.taken reservedAgain snapshotAgain = prepared.taken reserved snapshot := by
  have apart (cluster : Id) : ¬prepared.Meets (prepared.wiped middle) cluster := by
    rintro ⟨entity, accepted, touches⟩
    exact first.homeless_again uprooted accepted cluster touches
  refine ⟨second.shows.founds_iff.mpr apart, ?_, ?_⟩
  · exact ((second.shows.cluster_cases reservedAgain).resolve_left (apart _)).1
  · refine matched_congr fun entity accepted => Bool.eq_iff_iff.mpr ?_
    rw [second.shows.admits_iff accepted, first.shows.admits_iff accepted]
    exact iff_of_true (.inr (.inr (first.homeless_again uprooted accepted)))
      (.inr (.inr (first.homeless uprooted accepted)))

theorem scores_refounded (sound : prepared.Sound) (cluster : Id) (link : Link) :
    (after.scores cluster)[link]? =
      if link.touches prepared.focal then
        if cluster = reservedAgain then (middle.scores (prepared.cluster reserved snapshot))[link]? else none
      else (middle.scores cluster)[link]? := by
  obtain ⟨_, chosen, taken⟩ := founded_again first second uprooted
  split
  · rename_i touches
    rw [second.star_of_homeless (first.homeless_again uprooted sound.focal) touches, chosen, taken,
      first.star_of_homeless (first.homeless uprooted sound.focal) touches, if_pos rfl]
  · rename_i apart
    have none : ScoreMap.star prepared.focal (prepared.taken reservedAgain snapshotAgain) link = none :=
      Option.eq_none_iff_forall_not_mem.mpr fun score found => apart (ends_of_star found).1
    simp [second.getElem?_scores, none, apart]

theorem joining_refounded : entity ∈ prepared.joining snapshotAgain (prepared.cluster reservedAgain snapshotAgain) ↔
    entity ∈ prepared.taken reserved snapshot := by
  obtain ⟨_, _, taken⟩ := founded_again first second uprooted
  rw [← taken, mem_matched, mem_joining]
  refine and_congr_right fun accepted => ?_
  rw [second.shows.admits_iff accepted, second.shows.clustered accepted, not_exists]
  have nowhere := first.homeless_again uprooted accepted
  exact iff_of_true (.inr nowhere) (.inr (.inr nowhere))

end Uprooted

end Twice

end Prepared

/-- What was found out once is found out again as long as feedback and the host stay as they are. -/
theorem Action.Resolves.again {α : Type} {action : Action α} {post : α → Prop} {value : α} {host : Host}
    {system after : System} (resolves : action.Resolves host system.store.tables.feedback True False post)
    (informed : system.Informed host)
    (run : Program.Runs (System.AnswersBy host True) action.run system (.ok value) after) :
    (after.Informed host ∧ system.Recached after) ∧ post value ∧
      action.Told host system.store.tables.feedback True False (fun _ => False) (· = value) := by
  obtain ⟨result, _, known, told⟩ := resolves
  obtain ⟨⟨informed, recached⟩, same⟩ := run.ensured (System.ensures_told (fun _ => informed) (told True))
  refine ⟨⟨informed trivial, recached⟩, known _ same, ?_⟩
  refine (Action.Ensures.refuse (told False) ?_).mono ?_
  · rintro error _ (failed | failed)
    · exact nomatch failed.symm.trans same
    · exact failed
  · intro other _ found
    exact Except.ok.inj (found.symm.trans same)

namespace System

structure Resettled (before after : System) (focal : EntityKey) (matched : Scored) (old new : Id) : Prop where
  rows : ∀ edge : Edge, (after.store.tables.matched.find? edge).map MatchRow.score =
    if edge.link.touches focal then
      if edge.cluster = new then (before.store.tables.matched.find? ⟨old, edge.link⟩).map MatchRow.score else none
    else (before.store.tables.matched.find? edge).map MatchRow.score
  pointers : ∀ entity : EntityKey, after.index[entity]?.map IndexRecord.cluster =
    if entity ∈ matched then before.index[entity]?.map fun _ => some new
    else before.index[entity]?.map IndexRecord.cluster
  members : after.lastTick ≤ Membership.latest → ∀ cluster entity,
    (after.membersOf cluster).has entity =
      if entity ∈ matched then
        if cluster = new then true
        else if before.pointer entity = some cluster then false
        else (before.membersOf cluster).has entity
      else (before.membersOf cluster).has entity

/-- The pass found a cluster to link in, or feedback puts the entity together with one of its matches. -/
def Rooted (system : System) (focal : EntityKey) (outcome : LinkOutcome) : Prop :=
  outcome.newCluster = false ∨
    ∃ entity ∈ outcome.matched, EntityPair.of focal entity ∈ system.store.tables.feedback.positivePairs focal

theorem Depicts.score_find? {system : System} {graph : LinkGraph} (depicted : system.Depicts graph) (edge : Edge) :
    (system.store.tables.matched.find? edge).map MatchRow.score = (graph.scores edge.cluster)[edge.link]? := by
  rw [depicted.scores, ClusterRows.getElem?_scores, MatchTable.find?]

theorem resettled_of_uprooted {system after : System} {graph middle image : LinkGraph} {prepared : Prepared}
    {held heldAgain : LockTable} {reserved reservedAgain : Id} {snapshot snapshotAgain : Linking.Snapshot}
    (depicted : system.Depicts middle) (depictedAfter : after.Depicts image) (sound : prepared.Sound)
    (punctual : middle.Punctual) (first : prepared.Places held reserved snapshot graph middle)
    (second : prepared.Places heldAgain reservedAgain snapshotAgain middle image)
    (uprooted : ¬prepared.Rooted reserved snapshot) :
    system.Resettled after prepared.focal (prepared.taken reserved snapshot)
      (prepared.cluster reserved snapshot) reservedAgain := by
  obtain ⟨_, chosen, _⟩ := Prepared.founded_again first second uprooted
  have joining (entity : EntityKey) :
      entity ∈ prepared.joining snapshotAgain reservedAgain ↔ entity ∈ prepared.taken reserved snapshot := by
    have joins := @Prepared.joining_refounded _ _ _ _ _ _ entity _ _ _ _ first second uprooted
    rwa [chosen] at joins
  constructor
  · intro edge
    simp only [depicted.score_find?, depictedAfter.score_find?]
    exact Prepared.scores_refounded first second uprooted sound edge.cluster edge.link
  · intro entity
    rw [← depictedAfter.record, ← depicted.record, second.record, chosen]
    simp only [joining, depicted.record, Option.map_map]
    rfl
  · intro bound cluster entity
    rw [← depictedAfter.present, ← depicted.present, ← depicted.pointer,
      second.present (punctual.timely _) (depictedAfter.bounded bound), chosen]
    simp only [joining]

/-- What a pass has found out when it goes for its locks, the next one would find out as well. -/
theorem told_of_pass {host : Host} {linker : Linker} {focal : EntityKey} {system after : System}
    {outcome : LinkOutcome} (informed : system.Informed host)
    (pass : Program.Runs (AnswersBy host True) (linker.link focal).run system (.ok outcome) after)
    (linked : outcome.isSkipped = false) :
    ∃ prepared middle, prepared.Sound ∧ prepared.focal = focal ∧
      prepared.positive = system.store.tables.feedback.positivePairs focal ∧
      (linker.prepare focal).Told host system.store.tables.feedback True False (fun _ => False)
        (· = .inr prepared) ∧
      (middle.Informed host ∧ system.Recached middle) ∧
      Program.Runs (AnswersBy host True) prepared.finish.run middle (.ok outcome) after := by
  obtain ⟨block, now, prepared, middle, blocks, links, accepts, prepares, finishes⟩ :=
    Linker.stages_of_pass pass linked
  have filled := (linker.looks_prepareBlock_filled block).holds accepts prepared rfl
  have found : (linker.prepare focal).Looks True Linking.Found := linker.looks_prepare focal
  obtain ⟨⟨informedNow, recached⟩, ⟨own, _⟩, toldBlock⟩ :=
    (@Linker.resolves_block host system.store.tables.feedback True False focal trivial linker nofun nofun).again
      informed blocks
  obtain ⟨⟨informedMiddle, recached'⟩, ⟨scored, ⟨rfl⟩, _⟩, toldRest⟩ :=
    (@Linker.resolves_prepareBlock host now.store.tables.feedback True False focal linker nofun block own nofun
      filled).again informedNow accepts
  rw [recached.store] at toldRest prepares finishes
  refine ⟨_, middle, found.holds prepares, rfl, rfl, ?_, ⟨informedMiddle, recached.trans recached'⟩, finishes⟩
  rw [linker.prepare_eq]
  refine (Action.ensures_bind _ _ _).mpr (toldBlock.mono ?_)
  rintro _ _ rfl
  exact toldRest

/-- The second of two passes over an entity, with nothing in between and while no call fails, comes to its end and
matches whom the first one matched. If that found a cluster to link in, or feedback puts the entity together
with one of its matches, then it links in the same cluster and leaves rows, pointers and members as they were;
otherwise it starts a cluster again, and all matches move there. -/
theorem relinked_of_pass {host : Host} {linker : Linker} {focal : EntityKey} {start system after : System}
    {first : LinkOutcome} (empty : start.store.tables = .empty) (cold : start.feedbackCache.entries = ∅)
    (free : start.locks = .empty) (history : Relation.ReflTransGen Evolves start system)
    (types : system.typeCache.Faithful fun set value => host (.typeOf set) = .ok value)
    (sets : system.setsCache.Faithful fun entityType value => host (.setsOf entityType) = .ok value)
    (pass : Program.Runs (AnswersBy host True) (linker.link focal).run system (.ok first) after)
    (linked : first.isSkipped = false) :
    (linker.link focal).Ensures (AnswersBy host False) Available (fun _ _ => False) (fun second final =>
      second.matched = first.matched ∧ second.deferred = first.deferred ∧
      (after.Rooted focal first →
        second.cluster = first.cluster ∧ second.newCluster = false ∧ final.LinkedAs after) ∧
      (¬after.Rooted focal first → second.newCluster = true ∧ ∃ old new, first.cluster = some old ∧
        second.cluster = some new ∧ after.Draws new ∧ after.Resettled final focal first.matched old new)) after := by
  obtain ⟨graph, orderly⟩ := orderly_of_history empty cold free history
  have anyhow := pass.mono fun _ _ _ _ => AnswersBy.any
  have feedback : after.store.tables.feedback = system.store.tables.feedback :=
    (orderly.coherent.linked anyhow).feedback
  obtain ⟨prepared, middle, sound, own, positive, told, ⟨informed, recached⟩, finishes⟩ :=
    told_of_pass ⟨orderly.coherent, types, sets⟩ pass linked
  obtain ⟨image, depicts, held, reserved, snapshot, reports, places, within⟩ :=
    (recached.depicts orderly.depicted).runs (finishes.mono fun _ _ _ _ => AnswersBy.any)
      (LinkGraph.ensures_finish sound)
  have idle : after.Idle host image := by
    have informed : after.Informed host := finishes.ensured (informed.ensures_finish sound)
    exact ⟨informed, depicts, (locks_of_link id (fun _ _ _ _ => And.left) anyhow).trans orderly.free⟩
  have rooted : after.Rooted focal first ↔ prepared.Rooted reserved snapshot := by
    rw [Rooted, reports.newCluster, reports.matched, feedback, ← positive, ← own]
    rfl
  refine (idle.ensures_link (feedback ▸ told)).mono ?_
  rintro second final
    ⟨imageAgain, idleAgain, ⟨found, _⟩ | ⟨_, ⟨rfl⟩, _, heldAgain, reservedAgain, snapshotAgain, again⟩⟩
  · cases found
  have taken : prepared.taken reservedAgain snapshotAgain = prepared.taken reserved snapshot := by
    by_cases root : prepared.Rooted reserved snapshot
    · exact Prepared.taken_again places again.places (orderly.consistent.placed sound ⟨_, places⟩) sound root
    · exact (Prepared.founded_again places again.places root).2.2
  have matched : second.matched = first.matched := by
    rw [again.reports.matched, reports.matched]
    exact taken
  refine ⟨matched, again.reports.deferred_eq reports matched, fun root => ?_, fun bare => ?_⟩
  · have consistent := orderly.consistent.placed sound ⟨_, places⟩
    obtain ⟨same, found⟩ := Prepared.cluster_again places again.places consistent sound (rooted.mp root)
    refine ⟨by rw [again.reports.cluster, reports.cluster, same], again.reports.newCluster.trans found, ?_⟩
    exact idleAgain.depicted.linkedAs depicts (Prepared.matches_again places again.places consistent sound
      (rooted.mp root) orderly.punctual within again.within)
  · have uprooted := fun root => bare (rooted.mpr root)
    obtain ⟨founds, chosen, _⟩ := Prepared.founded_again places again.places uprooted
    refine ⟨again.reports.newCluster.trans founds, _, reservedAgain, reports.cluster,
      chosen ▸ again.reports.cluster, again.drawn, ?_⟩
    rw [reports.matched, ← own]
    exact resettled_of_uprooted depicts idleAgain.depicted sound (orderly.punctual.placed ⟨_, places⟩ within)
      places again.places uprooted

end System

theorem System.Advances.evolves {system after : System} (advances : System.Advances system after) :
    System.Evolves system after := by
  cases advances with
  | feedback operation run => exact .feedback operation run
  | link linker focal run => exact .link linker focal (run.mono fun _ _ _ _ => And.left)
  | recordWrite entity writtenAt => exact .recordWrite entity writtenAt system
  | tombstone entity => exact .tombstone entity system

namespace Sample

/-- The left entity joins the cluster of the third one, and stays there when it is linked again. -/
theorem relinked_of_left_torn : ∃ (first : LinkOutcome),
    known.store.tables = .empty ∧ known.feedbackCache.entries = ∅ ∧ known.locks = .empty ∧
    Relation.ReflTransGen System.Evolves known torn ∧
    (torn.typeCache.Faithful fun set value => quartet (.typeOf set) = .ok value) ∧
    (torn.setsCache.Faithful fun entityType value => quartet (.setsOf entityType) = .ok value) ∧
    Program.Runs (System.AnswersBy quartet True) (linker.link left).run torn (.ok first) (passed torn left) ∧
    first.isSkipped = false ∧ (passed torn left).Rooted left first ∧
    (linker.link left).Ensures (System.AnswersBy quartet False) System.Available (fun _ _ => False)
      (fun second final => second.cluster = first.cluster ∧ second.newCluster = false ∧
        final.LinkedAs (passed torn left)) (passed torn left) := by
  have history : Relation.ReflTransGen System.Evolves known torn :=
    Relation.ReflTransGen.mono (fun _ _ => System.Advances.evolves) _ _ advances_torn
  have types : torn.typeCache.Faithful fun set value => quartet (.typeOf set) = .ok value :=
    Cache.faithful_of_empty (by decide +kernel)
  have sets : torn.setsCache.Faithful fun entityType value => quartet (.setsOf entityType) = .ok value :=
    Cache.faithful_of_empty (by decide +kernel)
  have own : torn.host = quartet := by simp [torn, known]
  obtain ⟨first, joins, pass⟩ := @System.served_of_linked quartet torn linker left
    (fun outcome => outcome.isSkipped = false ∧ outcome.newCluster = false) own (by decide +kernel)
  obtain ⟨linked, joined⟩ : first.isSkipped = false ∧ first.newCluster = false := by simpa using joins
  have again := System.relinked_of_pass rfl rfl rfl history types sets pass linked
  exact ⟨first, rfl, rfl, rfl, history, types, sets, pass, linked, .inl joined,
    again.mono fun _ _ holds => holds.2.2.1 (.inl joined)⟩

/-- The left entity is linked in a cluster of its own, and in another one when it is linked again. -/
theorem relinked_elsewhere : ∃ first second : LinkOutcome,
    start.store.tables = .empty ∧ Relation.ReflTransGen System.Evolves start written ∧
    ((linker.link left).run.run System.answer? written) = (.done (.ok first), linked) ∧
    first.isSkipped = false ∧
    ((linker.link left).run.run System.answer? linked).1 = .done (.ok second) ∧
    second.cluster ≠ first.cluster ∧ second.newCluster = true := by
  obtain ⟨result, chose, run⟩ := @Program.eq_done_of_any _ ((linker.link left).run.run System.answer? written).1
    (fun result => result.toOption.any fun outcome => outcome.cluster = some (.ofNat 100)) (by decide +kernel)
  obtain ⟨result', again, run'⟩ := @Program.eq_done_of_any _ ((linker.link left).run.run System.answer? linked).1
    (fun result => result.toOption.any fun outcome => outcome.cluster = some (.ofNat 101) ∧ outcome.newCluster)
    (by decide +kernel)
  cases result with
  | error => cases chose
  | ok first =>
      cases result' with
      | error => cases again
      | ok second =>
          have chose : first.cluster = some (.ofNat 100) := by simpa [Except.toOption] using chose
          obtain ⟨again, starts⟩ : second.cluster = some (.ofNat 101) ∧ second.newCluster = true := by
            simpa [Except.toOption] using again
          refine ⟨first, second, rfl, .single (.recordWrite left noon start), Prod.ext run rfl, ?_, run', ?_, starts⟩
          · simp [LinkOutcome.isSkipped, chose]
          · rw [again, chose]
            decide

end Sample

end RecordLinkage
