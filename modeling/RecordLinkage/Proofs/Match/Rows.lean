import Mathlib.Data.List.Nodup
import Mathlib.Tactic.Tauto
import RecordLinkage.Proofs.Ascending
import RecordLinkage.Proofs.Match.Scores
import RecordLinkage.Store.Tables

/-! A match table read as one map from edges to rows. A batch overwrites the map in its order and a removal
takes the listed rows that are there, each look-up answers what the map says, and the counts are those of
the map: no count and no group is empty, so a removal always finds the counts that it lowers. -/

namespace RecordLinkage

abbrev EdgeRows := Std.ExtTreeMap Edge MatchRow

namespace EdgeRows

variable {rows : EdgeRows} {edge other : Edge}

def upsert (rows : EdgeRows) (edges : List ScoredEdge) (writtenAt : Instant) : EdgeRows :=
  edges.foldl (fun rows scored => rows.insert scored.edge ⟨scored.score, writtenAt⟩) rows

def remove (rows : EdgeRows) (edges : List Edge) : EdgeRows :=
  rows.filter fun edge _ => !edges.contains edge

def listed (rows : EdgeRows) (edges : List Edge) : Nat := rows.keys.countP fun edge => edges.contains edge

def touching (rows : EdgeRows) (entity : EntityKey) (cluster : Id) : Nat :=
  rows.keys.countP fun edge => edge.cluster = cluster && edge.link.touches entity

def after (rows : EdgeRows) : Change → EdgeRows
  | .upsertEdges edges writtenAt => rows.upsert edges writtenAt
  | .removeEdges edges => rows.remove edges
  | _ => rows

def replay (rows : EdgeRows) (changes : List Change) : EdgeRows := changes.foldl after rows

theorem getElem?_remove (rows : EdgeRows) (edges : List Edge) (edge : Edge) :
    (rows.remove edges)[edge]? = if edge ∈ edges then none else rows[edge]? := by
  simp only [remove, Std.ExtTreeMap.getElem?_filter', List.contains_eq_mem]
  by_cases found : edge ∈ edges <;> cases rows[edge]? <;> simp [found]

theorem perm_keys {edges : List Edge} (distinct : edges.Nodup)
    (same : ∀ edge, edge ∈ edges ↔ edge ∈ rows) : edges.Perm rows.keys := by
  refine (List.perm_ext_iff_of_nodup distinct rows.nodup_keys).mpr fun edge => ?_
  rw [same, Std.ExtTreeMap.mem_keys]

theorem mem_erase : other ∈ rows.erase edge ↔ other ≠ edge ∧ other ∈ rows := by
  rw [Std.ExtTreeMap.mem_erase, ne_eq, Std.LawfulEqOrd.compare_eq_iff_eq, ne_comm]

/-- A row that is listed first counts once, also if it is listed again. -/
theorem listed_cons (rows : EdgeRows) (edge : Edge) (edges : List Edge) :
    listed rows (edge :: edges) =
      (if edge ∈ rows then 1 else 0) + listed (rows.erase edge) edges := by
  -- Once its row is gone, it does not matter that an edge is listed.
  have apart : listed (rows.erase edge) (edge :: edges) = listed (rows.erase edge) edges := by
    refine List.countP_congr fun other found => ?_
    have other := (mem_erase.mp (Std.ExtTreeMap.mem_keys.mp found)).1
    simp [other]
  rw [← apart]
  split
  · rename_i old
    have keys : (edge :: (rows.erase edge).keys).Perm rows.keys := by
      refine perm_keys (List.nodup_cons.mpr ⟨?_, Std.ExtTreeMap.nodup_keys⟩) fun other => ?_
      · simp
      · rw [List.mem_cons, Std.ExtTreeMap.mem_keys, mem_erase]
        by_cases same : other = edge <;> simp [same, old]
    rw [listed, ← keys.countP_eq, List.countP_cons_of_pos (by simp), listed]
    omega
  · rename_i absent
    have keys : (rows.erase edge).keys.Perm rows.keys := by
      refine perm_keys Std.ExtTreeMap.nodup_keys fun other => ?_
      rw [Std.ExtTreeMap.mem_keys, mem_erase]
      exact and_iff_right_of_imp fun found same => absent (same ▸ found)
    rw [listed, ← keys.countP_eq, listed]
    omega

theorem remove_cons (rows : EdgeRows) (edge : Edge) (edges : List Edge) :
    rows.remove (edge :: edges) = remove (rows.erase edge) edges := by
  apply Std.ExtTreeMap.ext_getElem?
  intro other
  simp only [getElem?_remove, Std.ExtTreeMap.getElem?_erase, Std.LawfulEqOrd.compare_eq_iff_eq,
    List.mem_cons]
  by_cases same : edge = other
  · simp [same]
  · simp [same, Ne.symm same]

end EdgeRows

theorem ScoreMap.score?_ofLinks (scores : LinkScores) (link : Link) :
    (ScoreMap.ofLinks scores).score? link = scores[link]? := by
  have folded : ∀ (list : List (Link × Double)) (map : ScoreMap) (score : Double),
      (list.foldl (fun map entry => map.add entry.1.src entry.1.dst entry.2) map).score? link =
        some score → (link, score) ∈ list ∨ map.score? link = some score := by
    intro list
    induction list with
    | nil => exact fun map score found => .inr found
    | cons entry list ih =>
        intro map score found
        rcases ih _ score found with later | first
        · exact .inl (.tail _ later)
        · rw [ScoreMap.score?_add] at first
          split at first
          · rename_i same
            rw [same, ← Option.some.inj first]
            exact .inl (.head _)
          · exact .inr first
  have known := ScoreMap.isSome_score?_ofLinks scores link
  cases found : (ScoreMap.ofLinks scores).score? link with
  | none =>
      rw [found] at known
      exact (Std.ExtTreeMap.getElem?_eq_none (by simpa using known)).symm
  | some score =>
      rcases folded scores.toList ∅ score found with listed | none
      · exact (Std.ExtTreeMap.mem_toList_iff_getElem?_eq_some.mp listed).symm
      · simp [ScoreMap.score?] at none

namespace TouchCounts

variable {counts : TouchCounts} {entity : EntityKey} {cluster : Id}

def Compact (counts : TouchCounts) : Prop := ∀ entity : EntityKey, counts[entity]? ≠ some ∅

theorem Compact.add (compact : counts.Compact) : (counts.add entity cluster).Compact := by
  intro other
  simp only [TouchCounts.add, Std.ExtTreeMap.getElem?_insert, Std.LawfulEqOrd.compare_eq_iff_eq]
  split
  · simp
  · exact compact other

theorem Compact.subtract (compact : counts.Compact) : (counts.subtract entity cluster).Compact := by
  intro other
  rw [subtract_eq]
  split
  · exact compact other
  · unfold replace
    split
    · rw [Std.ExtTreeMap.getElem?_erase]
      split
      · simp
      · exact compact other
    · rename_i filled
      rw [Std.ExtTreeMap.getElem?_insert]
      split
      · intro none
        exact filled (Std.ExtTreeMap.isEmpty_iff.mpr (Option.some.inj none))
      · exact compact other

def Counts (counts : TouchCounts) (entity : EntityKey) (cluster : Id) : Prop :=
  ∃ rest, counts.count? entity cluster = some (rest + 1)

end TouchCounts

namespace MatchTable

variable {table : MatchTable} {rows : EdgeRows} {edge : Edge} {row : MatchRow}

def Subtracts (table : MatchTable) : List Edge → Prop
  | [] => True
  | edge :: edges =>
      (edge.link ∈ table.rowsOf edge.cluster → table.counts.Counts edge.link.src edge.cluster ∧
        (edge.link.dst ≠ edge.link.src →
          (table.counts.subtract edge.link.src edge.cluster).Counts edge.link.dst edge.cluster)) ∧
      (table.removeOne edge).2.Subtracts edges

def Lists (edges : List Edge) (condition : Edge → Prop) : Prop :=
  edges.Nodup ∧ ∀ edge, edge ∈ edges ↔ condition edge

structure ReadsAs (table : MatchTable) (rows : EdgeRows) : Prop where
  find? : ∀ edge, table.find? edge = rows[edge]?
  clusters : ∀ cluster : Id, table.clusters[cluster]? ≠ some (∅ : ClusterRows)
  counts : ∀ entity cluster, table.counts.count? entity cluster =
    if rows.touching entity cluster = 0 then none else some (rows.touching entity cluster)
  groups : table.counts.Compact
  containing : ∀ entities cluster, cluster ∈ table.clustersContaining entities ↔
    ∃ edge ∈ rows, edge.cluster = cluster ∧ ∃ entity ∈ entities, edge.link.touches entity
  loads : ∀ ids cluster, cluster ∈ table.load ids ↔
    cluster ∈ ids ∧ ∃ edge ∈ rows, edge.cluster = cluster
  scores : ∀ ids cluster scores, (table.load ids)[cluster]? = some scores →
    scores.Filled ∧ ∀ link, scores.score? link = rows[Edge.mk cluster link]?.map MatchRow.score
  edge : ∀ link, Lists (table.planEdge link) fun edge => edge ∈ rows ∧ edge.link = link
  touching : ∀ entity kept, Lists (table.planTouching entity kept) fun edge =>
    edge ∈ rows ∧ edge.link.touches entity ∧ edge.link.pair ∉ kept
  touchingWhere : ∀ chosen, Lists (table.planTouchingWhere chosen) fun edge =>
    edge ∈ rows ∧ ∃ entity, chosen entity ∧ edge.link.touches entity
  all : table.all = rows.toList.map fun (edge, row) => ⟨edge, row⟩

structure Keeps (table : MatchTable) (rows : EdgeRows) : Prop where
  sound : table.Sound
  compact : table.counts.Compact
  row : ∀ edge, table.find? edge = rows[edge]?

theorem keeps_empty : empty.Keeps ∅ where
  sound := sound_empty
  compact := by
    intro entity
    simp [empty]
  row := by
    intro edge
    simp [find?, rowsOf, empty]

theorem Keeps.mem (keeps : table.Keeps rows) : edge.link ∈ table.rowsOf edge.cluster ↔ edge ∈ rows := by
  rw [Std.ExtTreeMap.mem_iff_isSome_getElem?, Std.ExtTreeMap.mem_iff_isSome_getElem?, ← keeps.row]
  rfl

theorem Keeps.put (keeps : table.Keeps rows) (edge : Edge) (row : MatchRow) :
    (table.put edge row).Keeps (rows.insert edge row) where
  sound := keeps.sound.put edge row
  compact := by
    simp only [MatchTable.put, TouchCounts.addEdge]
    split
    · exact keeps.compact
    · split
      · exact keeps.compact.add
      · exact keeps.compact.add.add
  row := by
    rintro ⟨cluster, link⟩
    have before := keeps.row ⟨cluster, link⟩
    simp only [find?] at before
    obtain ⟨own, ends⟩ := edge
    rw [find?, rowsOf_put, Std.ExtTreeMap.getElem?_insert]
    by_cases within : own = cluster
    · subst within
      simp [Std.ExtTreeMap.getElem?_insert, before]
    · simp [within, before]

theorem Keeps.upsert (keeps : table.Keeps rows) (edges : List ScoredEdge) (writtenAt : Instant) :
    (table.upsert edges writtenAt).Keeps (rows.upsert edges writtenAt) := by
  unfold MatchTable.upsert EdgeRows.upsert
  induction edges generalizing table rows with
  | nil => exact keeps
  | cons scored edges ih => exact ih (keeps.put scored.edge _)

theorem Keeps.removeOne (keeps : table.Keeps rows) (edge : Edge) :
    (table.removeOne edge).2.Keeps (rows.erase edge) where
  sound := keeps.sound.removeOne edge
  compact := by
    unfold MatchTable.removeOne
    split
    · exact keeps.compact
    · split
      · simp only [TouchCounts.subtractEdge]
        split
        · exact keeps.compact.subtract
        · exact keeps.compact.subtract.subtract
      · exact keeps.compact
  row := by
    rintro ⟨cluster, link⟩
    have before := keeps.row ⟨cluster, link⟩
    simp only [find?] at before
    obtain ⟨own, ends⟩ := edge
    rw [find?, rowsOf_removeOne, Std.ExtTreeMap.getElem?_erase]
    by_cases within : own = cluster
    · subst within
      simp [Std.ExtTreeMap.getElem?_erase, before]
    · simp [within, before]

theorem Keeps.found (keeps : table.Keeps rows) : (table.removeOne edge).1 ↔ edge ∈ rows := by
  rw [← keeps.mem]
  unfold MatchTable.removeOne
  cases known : table.clusters[edge.cluster]? with
  | none => simp [rowsOf, Std.ExtTreeMap.getD_eq_getD_getElem?, known]
  | some own =>
      have own_eq : table.rowsOf edge.cluster = own := by
        simp [rowsOf, Std.ExtTreeMap.getD_eq_getD_getElem?, known]
      rw [own_eq]
      by_cases old : edge.link ∈ own
      · simp [old]
      · simp [old]

theorem Keeps.remove (keeps : table.Keeps rows) (edges : List Edge) :
    (table.remove edges).2.Keeps (rows.remove edges) := by
  induction edges generalizing table rows with
  | nil =>
      have same : rows.remove [] = rows := by
        apply Std.ExtTreeMap.ext_getElem?
        simp [EdgeRows.getElem?_remove]
      rw [same]
      exact keeps
  | cons edge edges ih =>
      rw [EdgeRows.remove_cons]
      exact ih (keeps.removeOne edge)

theorem Keeps.count_remove (keeps : table.Keeps rows) (edges : List Edge) :
    (table.remove edges).1 = rows.listed edges := by
  induction edges generalizing table rows with
  | nil => simp [MatchTable.remove, EdgeRows.listed]
  | cons edge edges ih =>
      rw [EdgeRows.listed_cons, ← ih (keeps.removeOne edge)]
      simp only [MatchTable.remove, keeps.found]
      split <;> omega

section Counts

variable {entity : EntityKey} {cluster : Id}

theorem Keeps.touching_eq (keeps : table.Keeps rows) (entity : EntityKey) (cluster : Id) :
    rows.touching entity cluster = ((table.rowsOf cluster).about entity).size := by
  have within : ((table.rowsOf cluster).keys.map (Edge.mk cluster)).Perm
      (rows.keys.filter fun edge => edge.cluster = cluster) := by
    refine (List.perm_ext_iff_of_nodup ?_ (rows.nodup_keys.filter _)).mpr ?_
    · refine List.Pairwise.map _ ?_ Std.ExtTreeMap.nodup_keys
      intro link other apart same
      exact apart (Edge.mk.inj same).2
    · intro edge
      simp only [List.mem_map, Std.ExtTreeMap.mem_keys, List.mem_filter, decide_eq_true_eq,
        ← keeps.mem]
      constructor
      · rintro ⟨link, old, rfl⟩
        exact ⟨old, rfl⟩
      · rintro ⟨old, rfl⟩
        exact ⟨edge.link, old, rfl⟩
  calc rows.touching entity cluster
    _ = (rows.keys.filter fun edge => edge.cluster = cluster).countP fun edge =>
          edge.link.touches entity := by
        rw [EdgeRows.touching, List.countP_filter]
        refine List.countP_congr fun edge _ => ?_
        simp [and_comm]
    _ = (table.rowsOf cluster).keys.countP fun link => link.touches entity := by
        rw [← within.countP_eq, List.countP_map]
        rfl
    _ = ((table.rowsOf cluster).about entity).size := by
        rw [← Std.ExtTreeMap.length_keys, ClusterRows.about, Std.ExtTreeMap.keys_filter_key,
          List.countP_eq_length_filter]

theorem Keeps.counted (keeps : table.Keeps rows) (entity : EntityKey) (cluster : Id) :
    table.counts.count? entity cluster =
      if rows.touching entity cluster = 0 then none else some (rows.touching entity cluster) := by
  rw [keeps.sound.counted, keeps.touching_eq]
  rfl

/-- The counts of both ends of a row are there to be lowered, one after the other. -/
theorem Keeps.subtracts (keeps : table.Keeps rows) (edges : List Edge) : table.Subtracts edges := by
  have counted : ∀ {table : MatchTable}, table.Sound → ∀ {edge : Edge} {entity : EntityKey},
      edge.link ∈ table.rowsOf edge.cluster → edge.link.touches entity →
      table.counts.Counts entity edge.cluster := by
    intro table sound edge entity old touches
    have size := ClusterRows.about_size_pos touches old
    refine ⟨((table.rowsOf edge.cluster).about entity).size - 1, ?_⟩
    rw [sound.counted, TouchCounts.entry, if_neg (by omega), Nat.sub_add_cancel size]
  induction edges generalizing table rows with
  | nil => trivial
  | cons edge edges ih =>
      refine ⟨fun old => ⟨counted keeps.sound old (by simp [Link.touches]), fun apart => ?_⟩,
        ih (keeps.removeOne edge)⟩
      obtain ⟨rest, known⟩ : table.counts.Counts edge.link.dst edge.cluster :=
        counted keeps.sound old (by simp [Link.touches])
      refine ⟨rest, ?_⟩
      rw [TouchCounts.count?_subtract, if_neg (fun same => apart same.1.symm), known]

end Counts

section Plans

variable (sound : table.Sound)
include sound

theorem mem_planEdge {link : Link} :
    edge ∈ table.planEdge link ↔ edge.link ∈ table.rowsOf edge.cluster ∧ edge.link = link := by
  obtain ⟨cluster, ends⟩ := edge
  simp only [planEdge, List.mem_map, List.mem_filter, mem_clustersOf sound, Edge.mk.injEq,
    Std.ExtTreeMap.contains_iff_mem]
  constructor
  · rintro ⟨_, ⟨_, old⟩, rfl, rfl⟩
    exact ⟨old, rfl⟩
  · rintro ⟨old, rfl⟩
    exact ⟨cluster, ⟨⟨ends, by simp [Link.touches], old⟩, old⟩, rfl, rfl⟩

theorem mem_planTouchingWhere {chosen : EntityKey → Bool} :
    edge ∈ table.planTouchingWhere chosen ↔ edge.link ∈ table.rowsOf edge.cluster ∧
      ∃ entity, chosen entity ∧ edge.link.touches entity := by
  have folded : ∀ (entities : List EntityKey) (planned : EdgeSet),
      edge ∈ entities.foldl (fun planned entity => planned.insertMany (table.edgesTouching entity))
        planned ↔ edge ∈ planned ∨ ∃ entity ∈ entities, edge ∈ table.edgesTouching entity := by
    intro entities
    induction entities with
    | nil => simp
    | cons entity entities ih =>
        intro planned
        simp [ih, or_assoc]
  simp only [planTouchingWhere, Std.ExtTreeSet.mem_toList, folded, Std.ExtTreeSet.not_mem_empty,
    false_or, List.mem_filter, Std.ExtTreeMap.mem_keys, mem_edgesTouching sound]
  constructor
  · rintro ⟨entity, ⟨_, fits⟩, touches, old⟩
    exact ⟨old, entity, fits, touches⟩
  · rintro ⟨old, entity, fits, touches⟩
    refine ⟨entity, ⟨?_, fits⟩, touches, old⟩
    -- Whoever is touched by a row is in its cluster, so there is a count.
    have within := (mem_clustersOf sound).mpr ⟨edge.link, touches, old⟩
    by_contra absent
    simp [clustersOf, Std.ExtTreeMap.getD_eq_getD_getElem?, Std.ExtTreeMap.getElem?_eq_none absent]
      at within

end Plans

theorem nodup_clustersOf (table : MatchTable) (entity : EntityKey) :
    (table.clustersOf entity).Nodup := Std.ExtTreeMap.nodup_keys

theorem nodup_planEdge (table : MatchTable) (link : Link) : (table.planEdge link).Nodup := by
  refine List.Pairwise.map _ ?_ ((table.nodup_clustersOf link.src).filter _)
  intro cluster other apart same
  exact apart (Edge.mk.inj same).1

theorem nodup_edgesTouching (table : MatchTable) (entity : EntityKey) :
    (table.edgesTouching entity).Nodup := by
  refine List.nodup_flatMap.mpr ⟨fun cluster _ => ?_, ?_⟩
  · refine List.Pairwise.map _ ?_ (Std.ExtTreeMap.nodup_keys.filter _)
    intro link other apart same
    exact apart (Edge.mk.inj same).2
  · refine (table.nodup_clustersOf entity).imp ?_
    intro cluster other apart edge one two
    obtain ⟨_, _, rfl⟩ := List.mem_map.mp one
    obtain ⟨_, _, same⟩ := List.mem_map.mp two
    exact apart (Edge.mk.inj same).1.symm

theorem mem_all : (⟨edge, row⟩ : MatchedEdge) ∈ table.all ↔ table.find? edge = some row := by
  obtain ⟨cluster, link⟩ := edge
  simp only [all, List.mem_flatMap, List.mem_map, Prod.exists, MatchedEdge.mk.injEq, Edge.mk.injEq,
    Std.ExtTreeMap.mem_toList_iff_getElem?_eq_some, find?, rowsOf,
    Std.ExtTreeMap.getD_eq_getD_getElem?]
  constructor
  · rintro ⟨_, own, known, _, _, found, ⟨rfl, rfl⟩, rfl⟩
    simp [known, found]
  · intro found
    cases known : table.clusters[cluster]? with
    | none => simp [known] at found
    | some own => exact ⟨cluster, own, known, link, row, by simpa [known] using found, ⟨rfl, rfl⟩, rfl⟩

theorem ascending_all (table : MatchTable) : Ascending MatchedEdge.edge table.all := by
  refine List.pairwise_flatMap.mpr ⟨fun entry _ => ?_, ?_⟩
  · refine List.Pairwise.map _ ?_ Std.ExtTreeMap.ordered_keys_toList
    intro a b less
    change (compare entry.1 entry.1).then (compare a.1 b.1) = .lt
    rw [Std.ReflOrd.compare_self, less]
    rfl
  · refine Std.ExtTreeMap.ordered_keys_toList.imp ?_
    intro a b less row first other second
    obtain ⟨_, _, rfl⟩ := List.mem_map.mp first
    obtain ⟨_, _, rfl⟩ := List.mem_map.mp second
    change (compare a.1 b.1).then _ = .lt
    rw [less]
    rfl

/-- Clusters in their order, and in each of them the rows in theirs, are the rows in their order. -/
theorem Keeps.all_eq (keeps : table.Keeps rows) :
    table.all = rows.toList.map fun (edge, row) => ⟨edge, row⟩ := by
  refine table.ascending_all.eq_of_mem_iff (ascending_entries rows _ fun _ => rfl) ?_
  rintro ⟨edge, row⟩
  rw [mem_all, keeps.row]
  simp

theorem Keeps.reads (keeps : table.Keeps rows) : table.ReadsAs rows where
  find? := keeps.row
  clusters := keeps.sound.listed
  counts := keeps.counted
  groups := keeps.compact
  containing := by
    intro entities cluster
    rw [mem_clustersContaining keeps.sound]
    constructor
    · rintro ⟨entity, wanted, link, touches, old⟩
      exact ⟨⟨cluster, link⟩, keeps.mem.mp old, rfl, entity, wanted, touches⟩
    · rintro ⟨edge, old, rfl, entity, wanted, touches⟩
      exact ⟨entity, wanted, edge.link, touches, keeps.mem.mpr old⟩
  loads := by
    intro ids cluster
    have listed : table.rowsOf cluster ≠ ∅ ↔ ∃ edge ∈ rows, edge.cluster = cluster := by
      simp only [ne_eq, Std.ExtTreeMap.eq_empty_iff_forall_not_mem, Classical.not_forall,
        Classical.not_not]
      constructor
      · rintro ⟨link, old⟩
        exact ⟨⟨cluster, link⟩, keeps.mem.mp old, rfl⟩
      · rintro ⟨edge, old, rfl⟩
        exact ⟨edge.link, keeps.mem.mpr old⟩
    rw [← listed, Std.ExtTreeMap.mem_iff_isSome_getElem?, getElem?_load, getElem?_clusters keeps.sound]
    by_cases wanted : cluster ∈ ids <;> by_cases none : table.rowsOf cluster = ∅ <;>
      simp [wanted, none]
  scores := by
    intro ids cluster scores loaded
    rw [getElem?_load, getElem?_clusters keeps.sound] at loaded
    split at loaded
    · split at loaded
      · cases loaded
      · obtain rfl := Option.some.inj loaded
        rw [ScoreMap.scoresOf_eq]
        refine ⟨ScoreMap.filled_ofLinks _, fun link => ?_⟩
        rw [ScoreMap.score?_ofLinks, ClusterRows.getElem?_scores, ← keeps.row]
        rfl
    · cases loaded
  edge := by
    intro link
    refine ⟨table.nodup_planEdge link, fun edge => ?_⟩
    rw [mem_planEdge keeps.sound, keeps.mem]
  touching := by
    intro entity kept
    refine ⟨(table.nodup_edgesTouching entity).filter _, fun edge => ?_⟩
    rw [mem_planTouching keeps.sound, keeps.mem]
    tauto
  touchingWhere := by
    intro chosen
    refine ⟨?_, fun edge => ?_⟩
    · exact Std.ExtTreeSet.distinct_toList.imp Std.ReflCmp.ne_of_cmp_ne_eq
    · rw [mem_planTouchingWhere keeps.sound, keeps.mem]
  all := keeps.all_eq

/-- From an empty table, changes make of it what they make of an empty map, so that it reads as that map
and a removal counts the listed rows that are there. -/
theorem replay_reads_as_map (changes : List Change) :
    let table := (Tables.empty.replay changes).matched
    let rows := EdgeRows.replay ∅ changes
    table.ReadsAs rows ∧
      ∀ edges, (table.remove edges).1 = rows.listed edges ∧ table.Subtracts edges := by
  have keeps : ∀ (tables : Tables) (rows : EdgeRows), tables.matched.Keeps rows →
      (tables.replay changes).matched.Keeps (rows.replay changes) := by
    induction changes with
    | nil => exact fun _ _ keeps => keeps
    | cons change changes ih =>
        intro tables rows keeps
        refine ih (tables.apply change).2 (rows.after change) ?_
        cases change with
        | upsertEdges edges writtenAt => exact keeps.upsert edges writtenAt
        | removeEdges edges => exact keeps.remove edges
        | _ => exact keeps
  have kept : (Tables.empty.replay changes).matched.Keeps (EdgeRows.replay ∅ changes) := keeps _ _ keeps_empty
  exact ⟨kept.reads, fun edges => ⟨kept.count_remove edges, kept.subtracts edges⟩⟩

end MatchTable

end RecordLinkage
