import RecordLinkage.Proofs.Linking.Preparing

/-! Two graphs that match on some entities and clusters, and passes that keep them matching. -/

namespace RecordLinkage

namespace LinkGraph

structure Matches (on : Lock → Prop) (graph other : LinkGraph) : Prop where
  scores : ∀ cluster, on (.cluster cluster) → graph.scores cluster = other.scores cluster
  record : ∀ entity, on (.member entity) → graph.record entity = other.record entity
  present : graph.lastTick ≤ Membership.latest → other.lastTick ≤ Membership.latest →
    ∀ cluster entity, on (.member entity) →
      graph.present cluster entity = other.present cluster entity
  timely : ∀ entity, on (.member entity) → ∀ time, graph.stamps entity time → time ≤ graph.lastTick
  timelyOther : ∀ entity, on (.member entity) → ∀ time, other.stamps entity time →
    time ≤ other.lastTick

namespace Matches

variable {on fewer : Lock → Prop} {held : LockTable} {graph other after afterOther : LinkGraph}

theorem symm (same : graph.Matches on other) : other.Matches on graph where
  scores := fun cluster inside => (same.scores cluster inside).symm
  record := fun entity inside => (same.record entity inside).symm
  present := fun bound boundOther cluster entity inside =>
    (same.present boundOther bound cluster entity inside).symm
  timely := same.timelyOther
  timelyOther := same.timely

theorem mono (same : graph.Matches on other) (inside : ∀ lock, fewer lock → on lock) :
    graph.Matches fewer other where
  scores := fun cluster listed => same.scores cluster (inside _ listed)
  record := fun entity listed => same.record entity (inside _ listed)
  present := fun bound boundOther cluster entity listed =>
    same.present bound boundOther cluster entity (inside _ listed)
  timely := fun entity listed => same.timely entity (inside _ listed)
  timelyOther := fun entity listed => same.timelyOther entity (inside _ listed)

theorem join (first : graph.Matches on other) (second : graph.Matches fewer other) :
    graph.Matches (fun lock => on lock ∨ fewer lock) other where
  scores := fun cluster inside => inside.elim (first.scores cluster) (second.scores cluster)
  record := fun entity inside => inside.elim (first.record entity) (second.record entity)
  present := fun bound boundOther cluster entity inside => inside.elim
    (first.present bound boundOther cluster entity) (second.present bound boundOther cluster entity)
  timely := fun entity inside => inside.elim (first.timely entity) (second.timely entity)
  timelyOther := fun entity inside =>
    inside.elim (first.timelyOther entity) (second.timelyOther entity)

theorem later (same : graph.Matches on other) (within : graph.Within held after)
    (apart : ∀ lock, on lock → ¬held.holds lock) : after.Matches on other := by
  have members : ∀ entity, on (.member entity) → entity ∉ held.members := by
    intro entity inside listed
    exact apart _ inside (Std.ExtTreeSet.contains_iff_mem.mpr listed)
  have clusters : ∀ cluster, on (.cluster cluster) → cluster ∉ held.clusters := by
    intro cluster inside listed
    exact apart _ inside (Std.ExtTreeSet.contains_iff_mem.mpr listed)
  constructor
  case scores =>
    intro cluster inside
    rw [within.scores cluster (clusters cluster inside), same.scores cluster inside]
  case record =>
    intro entity inside
    rw [within.record entity (members entity inside), same.record entity inside]
  case present =>
    intro bound boundOther cluster entity inside
    rw [within.present cluster entity (members entity inside),
      same.present (Int.le_trans within.lastTick bound) boundOther cluster entity inside]
  case timely =>
    intro entity inside time bears
    rw [within.stamps entity (members entity inside)] at bears
    exact Int.le_trans (same.timely entity inside time bears) within.lastTick
  case timelyOther => exact same.timelyOther

theorem alike (same : graph.Matches (fun lock => held.holds lock) other)
    (alike : graph.Alike held after) : after.Matches (fun lock => held.holds lock) other where
  scores := by
    intro cluster inside
    rw [← alike.scores cluster (Std.ExtTreeSet.contains_iff_mem.mp inside),
      same.scores cluster inside]
  record := by
    intro entity inside
    rw [← alike.record entity (Std.ExtTreeSet.contains_iff_mem.mp inside),
      same.record entity inside]
  present := by
    intro bound boundOther cluster entity inside
    rw [← alike.present cluster entity (Std.ExtTreeSet.contains_iff_mem.mp inside),
      same.present (Int.le_trans alike.lastTick bound) boundOther cluster entity inside]
  timely := by
    intro entity inside time bears
    rw [← alike.stamps entity (Std.ExtTreeSet.contains_iff_mem.mp inside)] at bears
    exact Int.le_trans (same.timely entity inside time bears) alike.lastTick
  timelyOther := same.timelyOther

section Placed

variable {prepared : Prepared} {reserved : Id}

theorem wiped (same : graph.Matches (fun lock => held.holds lock) other) {cluster : Id}
    (inside : cluster ∈ held.clusters) :
    (prepared.wiped graph).scores cluster = (prepared.wiped other).scores cluster := by
  simp only [Prepared.wiped, wipe, same.scores cluster (Std.ExtTreeSet.contains_iff_mem.mpr inside)]

theorem meets (same : graph.Matches (fun lock => held.holds lock) other)
    (members : ∀ entity ∈ prepared.scored, entity ∈ held.members) (closed : graph.Closed held)
    {cluster : Id} (meets : prepared.Meets (prepared.wiped graph) cluster) :
    cluster ∈ held.clusters ∧ prepared.Meets (prepared.wiped other) cluster := by
  obtain ⟨entity, accepted, touches⟩ := meets
  have inside := closed entity (members entity accepted) cluster (touches_wipe touches)
  refine ⟨inside, entity, accepted, ?_⟩
  rwa [Touches, ← same.wiped inside]

theorem snapshot (same : graph.Matches (fun lock => held.holds lock) other)
    (members : ∀ entity ∈ prepared.scored, entity ∈ held.members) (closed : graph.Closed held)
    (closedOther : other.Closed held) {snapshot snapshotOther : Linking.Snapshot}
    (shows : prepared.Shows (prepared.wiped graph) snapshot)
    (showsOther : prepared.Shows (prepared.wiped other) snapshotOther) :
    snapshot = snapshotOther := by
  apply Std.ExtTreeMap.ext_getElem?
  intro cluster
  by_cases found : prepared.Meets (prepared.wiped graph) cluster
  · obtain ⟨inside, foundOther⟩ := same.meets members closed found
    rw [shows.found cluster found, showsOther.found cluster foundOther, same.wiped inside]
  · rw [shows.missing cluster found, showsOther.missing]
    intro foundOther
    exact found (same.symm.meets members closedOther foundOther).2

theorem placed (same : graph.Matches (fun lock => held.holds lock) other)
    (members : ∀ entity ∈ prepared.scored, entity ∈ held.members) (closed : graph.Closed held)
    (closedOther : other.Closed held) (places : prepared.Placed held reserved graph after)
    (placesOther : prepared.Placed held reserved other afterOther) :
    after.Matches (fun lock => held.holds lock) afterOther := by
  obtain ⟨snapshot, places⟩ := places
  obtain ⟨snapshotOther, placesOther⟩ := placesOther
  obtain rfl := same.snapshot members closed closedOther places.shows placesOther.shows
  have timely : graph.Timely held := fun entity inside =>
    same.timely entity (Std.ExtTreeSet.contains_iff_mem.mpr inside)
  have timelyOther : other.Timely held := fun entity inside =>
    same.timelyOther entity (Std.ExtTreeSet.contains_iff_mem.mpr inside)
  constructor
  case scores =>
    intro cluster inside
    rw [places.scores, placesOther.scores]
    exact scores_upsert_congr (same.wiped (Std.ExtTreeSet.contains_iff_mem.mp inside)) _
  case record =>
    intro entity inside
    rw [places.record, placesOther.record, same.record entity inside]
  case present =>
    intro bound boundOther cluster entity inside
    rw [places.present timely bound, placesOther.present timelyOther boundOther, pointer, pointer,
      same.record entity inside, same.present (Int.le_trans places.lastTick bound)
        (Int.le_trans placesOther.lastTick boundOther) cluster entity inside]
  case timely =>
    intro entity inside
    exact places.timely timely entity (Std.ExtTreeSet.contains_iff_mem.mp inside)
  case timelyOther =>
    intro entity inside
    exact placesOther.timely timelyOther entity (Std.ExtTreeSet.contains_iff_mem.mp inside)

end Placed

end Matches

end LinkGraph

end RecordLinkage
