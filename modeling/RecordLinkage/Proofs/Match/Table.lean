import RecordLinkage.Match.Table

/-! The counts of a match table agree with its rows, whatever was written and removed, so a look-up
through the counts finds exactly the rows that touch an entity. -/

namespace RecordLinkage

theorem mem_filter_key {κ ν : Type} [Ord κ] [Std.TransOrd κ] [Std.LawfulEqOrd κ]
    {map : Std.ExtTreeMap κ ν} {test : κ → Bool} {key : κ} :
    key ∈ map.filter (fun key _ => test key) ↔ key ∈ map ∧ test key := by
  simp only [Std.ExtTreeMap.mem_iff_isSome_getElem?, Std.ExtTreeMap.getElem?_filter']
  cases map[key]? <;> cases test key <;> simp

def Touched {ν : Type} (rows : Std.ExtTreeMap Link ν) (entity : EntityKey) : Prop :=
  ∃ link, link.touches entity ∧ link ∈ rows

namespace ClusterRows

variable {rows : ClusterRows} {link : Link} {entity : EntityKey}

def about (rows : ClusterRows) (entity : EntityKey) : ClusterRows :=
  rows.filter fun link _ => link.touches entity

theorem getElem?_about (rows : ClusterRows) (entity : EntityKey) (link : Link) :
    (rows.about entity)[link]? = if link.touches entity then rows[link]? else none := by
  simp only [about, Std.ExtTreeMap.getElem?_filter']
  cases link.touches entity <;> cases rows[link]? <;> rfl

theorem mem_about : link ∈ rows.about entity ↔ link.touches entity ∧ link ∈ rows := by
  exact mem_filter_key.trans and_comm

theorem about_insert_touching (row : MatchRow) (touches : link.touches entity) :
    about (rows.insert link row) entity = (rows.about entity).insert link row := by
  apply Std.ExtTreeMap.ext_getElem?
  intro other
  simp only [getElem?_about, Std.ExtTreeMap.getElem?_insert, Std.LawfulEqOrd.compare_eq_iff_eq]
  by_cases same : link = other
  · subst same
    simp [touches]
  · simp [same]

theorem about_insert_apart (row : MatchRow) (apart : ¬link.touches entity) :
    about (rows.insert link row) entity = rows.about entity := by
  apply Std.ExtTreeMap.ext_getElem?
  intro other
  simp only [getElem?_about, Std.ExtTreeMap.getElem?_insert, Std.LawfulEqOrd.compare_eq_iff_eq]
  by_cases same : link = other
  · subst same
    simp [apart]
  · simp [same]

theorem about_erase : about (rows.erase link) entity = (rows.about entity).erase link := by
  apply Std.ExtTreeMap.ext_getElem?
  intro other
  simp only [getElem?_about, Std.ExtTreeMap.getElem?_erase]
  split <;> simp

theorem size_about_insert_new (row : MatchRow) (new : link ∉ rows) :
    (about (rows.insert link row) entity).size =
      (rows.about entity).size + (if link.touches entity then 1 else 0) := by
  by_cases touches : link.touches entity
  · have outside : link ∉ rows.about entity := fun inside => new (mem_about.mp inside).2
    simp [about_insert_touching row touches, Std.ExtTreeMap.size_insert, outside, touches]
  · simp [about_insert_apart row touches, touches]

theorem size_about_insert_old (row : MatchRow) (old : link ∈ rows) :
    (about (rows.insert link row) entity).size = (rows.about entity).size := by
  by_cases touches : link.touches entity
  · have inside : link ∈ rows.about entity := mem_about.mpr ⟨touches, old⟩
    simp [about_insert_touching row touches, Std.ExtTreeMap.size_insert, inside]
  · simp [about_insert_apart row touches]

theorem size_about_erase (old : link ∈ rows) (entity : EntityKey) :
    (about (rows.erase link) entity).size =
      (rows.about entity).size - (if link.touches entity then 1 else 0) := by
  have inside : link ∈ rows.about entity ↔ link.touches entity := by simp [mem_about, old]
  simp [about_erase, Std.ExtTreeMap.size_erase, inside]
  by_cases touches : link.touches entity <;> simp [touches]

theorem about_size_pos (touches : link.touches entity) (old : link ∈ rows) :
    0 < (rows.about entity).size := by
  have inside : link ∈ rows.about entity := mem_about.mpr ⟨touches, old⟩
  have someRow : rows.about entity ≠ ∅ := fun none => by simp [none] at inside
  have size := mt Std.ExtTreeMap.eq_empty_iff_size_eq_zero.mpr someRow
  omega

theorem exists_of_about_size_pos (filled : 0 < (rows.about entity).size) :
    Touched rows entity := by
  apply Classical.byContradiction
  intro none
  have empty : rows.about entity = ∅ := by
    apply Std.ExtTreeMap.eq_empty_iff_forall_not_mem.mpr
    intro link found
    exact none ⟨link, mem_about.mp found⟩
  rw [empty] at filled
  simp at filled

theorem erase_absent (absent : link ∉ rows) : rows.erase link = rows := by
  apply Std.ExtTreeMap.ext_getElem?
  intro other
  have missing := Std.ExtTreeMap.getElem?_eq_none absent
  simp only [Std.ExtTreeMap.getElem?_erase, Std.LawfulEqOrd.compare_eq_iff_eq]
  split
  · rename_i same
    rw [← same, missing]
  · rfl

end ClusterRows

namespace TouchCounts

def count? (counts : TouchCounts) (entity : EntityKey) (cluster : Id) : Option Nat :=
  (counts.getD entity ∅)[cluster]?

def entry (count : Nat) : Option Nat := if count = 0 then none else some count

theorem count?_add (counts : TouchCounts) (entity other : EntityKey) (cluster cluster' : Id) :
    (counts.add entity cluster).count? other cluster' =
      if entity = other ∧ cluster = cluster' then some ((counts.count? entity cluster).getD 0 + 1)
      else counts.count? other cluster' := by
  simp only [count?, add, Std.ExtTreeMap.getD_insert, Std.LawfulEqOrd.compare_eq_iff_eq]
  by_cases same : entity = other
  · subst same
    simp [Std.ExtTreeMap.getElem?_insert, Std.ExtTreeMap.getD_eq_getD_getElem?]
  · simp [same]

def less (own : Std.ExtTreeMap Id Nat) (cluster : Id) : Std.ExtTreeMap Id Nat :=
  match own[cluster]? with
  | none => own
  | some count => if count ≤ 1 then own.erase cluster else own.insert cluster (count - 1)

def replace (counts : TouchCounts) (entity : EntityKey) (own : Std.ExtTreeMap Id Nat) :
    TouchCounts :=
  if own.isEmpty then counts.erase entity else counts.insert entity own

theorem subtract_eq (counts : TouchCounts) (entity : EntityKey) (cluster : Id) :
    counts.subtract entity cluster =
      match counts[entity]? with
      | none => counts
      | some own => counts.replace entity (less own cluster) := rfl

theorem getElem?_less (own : Std.ExtTreeMap Id Nat) (cluster cluster' : Id) :
    (less own cluster)[cluster']? =
      if cluster = cluster' then (own[cluster]?).bind fun count => entry (count - 1)
      else own[cluster']? := by
  simp only [less]
  cases known : own[cluster]? with
  | none =>
      by_cases same : cluster = cluster'
      · subst same
        simp [known]
      · simp [same]
  | some count =>
      by_cases last : count ≤ 1
      · have zero : count - 1 = 0 := by omega
        simp [last, entry, zero, Std.ExtTreeMap.getElem?_erase]
      · have more : count - 1 ≠ 0 := by omega
        simp [last, entry, more, Std.ExtTreeMap.getElem?_insert]

theorem count?_replace (counts : TouchCounts) (entity other : EntityKey)
    (own : Std.ExtTreeMap Id Nat) (cluster : Id) :
    (counts.replace entity own).count? other cluster =
      if entity = other then own[cluster]? else counts.count? other cluster := by
  simp only [replace, count?]
  split
  · rename_i empty
    rw [Std.ExtTreeMap.isEmpty_iff.mp empty]
    by_cases same : entity = other <;> simp [same, Std.ExtTreeMap.getD_erase]
  · by_cases same : entity = other <;> simp [same, Std.ExtTreeMap.getD_insert]

theorem count?_subtract (counts : TouchCounts) (entity other : EntityKey) (cluster cluster' : Id) :
    (counts.subtract entity cluster).count? other cluster' =
      if entity = other ∧ cluster = cluster' then
        (counts.count? entity cluster).bind fun count => entry (count - 1)
      else counts.count? other cluster' := by
  rw [subtract_eq]
  cases known : counts[entity]? with
  | none =>
      have unknown : ∀ cluster, counts.count? entity cluster = none := by
        intro cluster
        simp [count?, Std.ExtTreeMap.getD_eq_getD_getElem?, known]
      by_cases same : entity = other ∧ cluster = cluster'
      · rw [if_pos same, ← same.1, unknown, unknown]
        rfl
      · rw [if_neg same]
  | some own =>
      have own_eq : ∀ cluster, counts.count? entity cluster = own[cluster]? := by
        intro cluster
        simp [count?, Std.ExtTreeMap.getD_eq_getD_getElem?, known]
      simp only [count?_replace, getElem?_less, own_eq]
      by_cases same : entity = other
      · subst same
        simp [own_eq]
      · simp [same]

/-- A change of the counts of both ends of an edge, made once if they are the same. -/
theorem count?_bothEnds (step : TouchCounts → EntityKey → Id → TouchCounts)
    (change : Option Nat → Option Nat)
    (each : ∀ counts entity other cluster cluster',
      (step counts entity cluster).count? other cluster' =
        if entity = other ∧ cluster = cluster' then change (counts.count? entity cluster)
        else counts.count? other cluster')
    (counts : TouchCounts) (edge : Edge) (entity : EntityKey) (cluster : Id) :
    (let counts := step counts edge.link.src edge.cluster
      if edge.link.dst = edge.link.src then counts
      else step counts edge.link.dst edge.cluster).count? entity cluster =
      if edge.link.touches entity ∧ edge.cluster = cluster then
        change (counts.count? entity cluster)
      else counts.count? entity cluster := by
  obtain ⟨own, src, dst⟩ := edge
  simp only [Link.touches, Bool.or_eq_true, decide_eq_true_eq]
  split
  · rename_i loop
    simp only [each, loop, or_self]
    split
    · rename_i same
      rw [same.1, same.2]
    · rfl
  · rename_i apart
    rw [each, each, each]
    by_cases within : own = cluster
    · subst within
      by_cases target : dst = entity
      · subst target
        simp [Ne.symm apart]
      · by_cases source : src = entity <;> simp [source, target]
    · simp [within]

theorem count?_addEdge (counts : TouchCounts) (edge : Edge) (entity : EntityKey) (cluster : Id) :
    (counts.addEdge edge).count? entity cluster =
      if edge.link.touches entity ∧ edge.cluster = cluster then
        some ((counts.count? entity cluster).getD 0 + 1)
      else counts.count? entity cluster := by
  exact count?_bothEnds add (fun count => some (count.getD 0 + 1)) count?_add counts edge entity
    cluster

theorem count?_subtractEdge (counts : TouchCounts) (edge : Edge) (entity : EntityKey)
    (cluster : Id) :
    (counts.subtractEdge edge).count? entity cluster =
      if edge.link.touches entity ∧ edge.cluster = cluster then
        (counts.count? entity cluster).bind fun count => entry (count - 1)
      else counts.count? entity cluster := by
  exact count?_bothEnds subtract (fun known => known.bind fun count => entry (count - 1))
    count?_subtract counts edge entity cluster

end TouchCounts

namespace MatchTable

structure Sound (table : MatchTable) : Prop where
  counted : ∀ entity cluster,
    table.counts.count? entity cluster =
      TouchCounts.entry ((table.rowsOf cluster).about entity).size
  listed : ∀ cluster : Id, table.clusters[cluster]? ≠ some (∅ : ClusterRows)

theorem sound_empty : empty.Sound where
  counted := by
    intro entity cluster
    rfl
  listed := by
    intro cluster
    simp [empty]

theorem rowsOf_put (table : MatchTable) (edge : Edge) (row : MatchRow) (cluster : Id) :
    (table.put edge row).rowsOf cluster =
      if edge.cluster = cluster then (table.rowsOf cluster).insert edge.link row
      else table.rowsOf cluster := by
  by_cases same : edge.cluster = cluster
  · subst same
    simp [rowsOf, put]
  · simp [rowsOf, put, same, Std.ExtTreeMap.getD_insert]

theorem Sound.put {table : MatchTable} (sound : table.Sound) (edge : Edge) (row : MatchRow) :
    (table.put edge row).Sound where
  counted := by
    intro entity cluster
    rw [rowsOf_put]
    have before := sound.counted entity cluster
    simp only [MatchTable.put]
    by_cases same : edge.cluster = cluster
    · subst same
      split
      · rename_i old
        rw [if_pos rfl, ClusterRows.size_about_insert_old row (by simpa using old), before]
      · rename_i new
        rw [if_pos rfl, ClusterRows.size_about_insert_new row (by simpa using new),
          TouchCounts.count?_addEdge, before]
        by_cases touches : edge.link.touches entity
        · cases size : ((table.rowsOf edge.cluster).about entity).size <;>
            simp [touches, TouchCounts.entry]
        · simp [touches]
    · split <;> simp [same, before, TouchCounts.count?_addEdge]
  listed := by
    intro cluster
    simp only [MatchTable.put, Std.ExtTreeMap.getElem?_insert, Std.LawfulEqOrd.compare_eq_iff_eq]
    split
    · simp
    · exact sound.listed cluster

theorem rowsOf_removeOne (table : MatchTable) (edge : Edge) (cluster : Id) :
    (table.removeOne edge).2.rowsOf cluster =
      if edge.cluster = cluster then (table.rowsOf cluster).erase edge.link
      else table.rowsOf cluster := by
  simp only [removeOne]
  cases known : table.clusters[edge.cluster]? with
  | none =>
      by_cases same : edge.cluster = cluster
      · subst same
        simp [rowsOf, Std.ExtTreeMap.getD_eq_getD_getElem?, known]
      · simp [same]
  | some rows =>
      have own : table.rowsOf edge.cluster = rows := by
        simp [rowsOf, Std.ExtTreeMap.getD_eq_getD_getElem?, known]
      by_cases old : rows.contains edge.link
      · simp only [old, if_true, rowsOf]
        split
        · rename_i last
          by_cases same : edge.cluster = cluster
          · subst same
            have rest := Std.ExtTreeMap.isEmpty_iff.mp last
            rw [rowsOf] at own
            simp [own, rest]
          · simp [same, Std.ExtTreeMap.getD_erase]
        · by_cases same : edge.cluster = cluster
          · subst same
            rw [rowsOf] at own
            simp [own]
          · simp [same, Std.ExtTreeMap.getD_insert]
      · have absent : edge.link ∉ rows := by simpa using old
        by_cases same : edge.cluster = cluster
        · subst same
          simp [own, old, ClusterRows.erase_absent absent]
        · simp [old, same]

theorem Sound.removeOne {table : MatchTable} (sound : table.Sound) (edge : Edge) :
    (table.removeOne edge).2.Sound where
  counted := by
    intro entity cluster
    rw [rowsOf_removeOne]
    have before := sound.counted entity cluster
    simp only [MatchTable.removeOne]
    cases known : table.clusters[edge.cluster]? with
    | none =>
        by_cases same : edge.cluster = cluster
        · subst same
          have none : table.rowsOf edge.cluster = ∅ := by
            simp [rowsOf, Std.ExtTreeMap.getD_eq_getD_getElem?, known]
          rw [if_pos rfl, ClusterRows.erase_absent (by simp [none])]
          exact before
        · simpa [same] using before
    | some rows =>
        have own : table.rowsOf edge.cluster = rows := by
          simp [rowsOf, Std.ExtTreeMap.getD_eq_getD_getElem?, known]
        by_cases same : edge.cluster = cluster
        · subst same
          rw [own] at before
          by_cases old : edge.link ∈ rows
          · have count := ClusterRows.size_about_erase old entity
            by_cases touches : edge.link.touches entity
            · have some := ClusterRows.about_size_pos touches old
              have nonzero : (rows.about entity).size ≠ 0 := by omega
              simp [old, own, count, touches, before, TouchCounts.count?_subtractEdge,
                TouchCounts.entry, nonzero]
            · simp [old, own, count, touches, before, TouchCounts.count?_subtractEdge]
          · simp [old, own, before, ClusterRows.erase_absent old]
        · by_cases old : edge.link ∈ rows <;>
            simp [old, same, before, TouchCounts.count?_subtractEdge]
  listed := by
    intro cluster
    have before := sound.listed cluster
    simp only [MatchTable.removeOne]
    cases known : table.clusters[edge.cluster]? with
    | none => exact before
    | some rows =>
        dsimp only
        split
        · dsimp only
          split
          · simp only [Std.ExtTreeMap.getElem?_erase]
            split
            · simp
            · exact before
          · rename_i more
            simp only [Std.ExtTreeMap.getElem?_insert]
            split
            · intro empty
              simp only [Option.some.injEq] at empty
              simp [empty] at more
            · exact before
        · exact before

theorem Sound.upsert {table : MatchTable} (sound : table.Sound) (edges : List ScoredEdge)
    (writtenAt : Instant) : (table.upsert edges writtenAt).Sound := by
  induction edges generalizing table with
  | nil => exact sound
  | cons scored edges ih => exact ih (sound.put scored.edge ⟨scored.score, writtenAt⟩)

theorem Sound.remove {table : MatchTable} (sound : table.Sound) (edges : List Edge) :
    (table.remove edges).2.Sound := by
  induction edges generalizing table with
  | nil => exact sound
  | cons edge edges ih => exact ih (sound.removeOne edge)

theorem getElem?_rowsOf_remove (table : MatchTable) (edges : List Edge) (cluster : Id)
    (link : Link) :
    ((table.remove edges).2.rowsOf cluster)[link]? =
      if ⟨cluster, link⟩ ∈ edges then none else (table.rowsOf cluster)[link]? := by
  induction edges generalizing table with
  | nil => simp [remove]
  | cons edge edges ih =>
      have first : ((table.removeOne edge).2.rowsOf cluster)[link]? =
          if edge = ⟨cluster, link⟩ then none else (table.rowsOf cluster)[link]? := by
        obtain ⟨own, ends⟩ := edge
        rw [rowsOf_removeOne]
        by_cases within : own = cluster
        · subst within
          simp [Std.ExtTreeMap.getElem?_erase]
        · simp [within]
      simp only [remove, ih, first, List.mem_cons]
      by_cases listed : (⟨cluster, link⟩ : Edge) ∈ edges
      · simp [listed]
      · by_cases same : edge = ⟨cluster, link⟩
        · simp [same]
        · simp [listed, same, Ne.symm same]

theorem getElem?_clusters {table : MatchTable} (sound : table.Sound) (cluster : Id) :
    table.clusters[cluster]? =
      if table.rowsOf cluster = ∅ then none else some (table.rowsOf cluster) := by
  have listed := sound.listed cluster
  cases known : table.clusters[cluster]? with
  | none => simp [rowsOf, Std.ExtTreeMap.getD_eq_getD_getElem?, known]
  | some rows =>
      have own : table.rowsOf cluster = rows := by
        simp [rowsOf, Std.ExtTreeMap.getD_eq_getD_getElem?, known]
      rw [known] at listed
      rw [own, if_neg fun none => listed (congrArg some none)]

section Lookup

variable {table : MatchTable} (sound : table.Sound) {entity : EntityKey} {cluster : Id}

include sound

theorem mem_clustersOf :
    cluster ∈ table.clustersOf entity ↔ Touched (table.rowsOf cluster) entity := by
  have counted := sound.counted entity cluster
  rw [clustersOf, Std.ExtTreeMap.mem_keys, Std.ExtTreeMap.mem_iff_isSome_getElem?]
  change (table.counts.count? entity cluster).isSome ↔ _
  rw [counted]
  simp only [TouchCounts.entry]
  constructor
  · intro some
    split at some
    · contradiction
    · exact ClusterRows.exists_of_about_size_pos (by omega)
  · rintro ⟨link, touches, old⟩
    have size := ClusterRows.about_size_pos touches old
    rw [if_neg (by omega)]
    rfl

theorem mem_clustersContaining {entities : EntitySet} :
    cluster ∈ table.clustersContaining entities ↔
      ∃ entity ∈ entities, Touched (table.rowsOf cluster) entity := by
  have folded : ∀ (list : List EntityKey) (ids : IdSet),
      cluster ∈ list.foldl (fun ids entity => ids.insertMany (table.clustersOf entity)) ids ↔
        cluster ∈ ids ∨ ∃ entity ∈ list, Touched (table.rowsOf cluster) entity := by
    intro list
    induction list with
    | nil => simp
    | cons entity list ih =>
        intro ids
        simp [ih, mem_clustersOf sound, or_assoc]
  rw [clustersContaining, folded]
  simp

theorem mem_edgesTouching {edge : Edge} :
    edge ∈ table.edgesTouching entity ↔
      edge.link.touches entity ∧ edge.link ∈ table.rowsOf edge.cluster := by
  obtain ⟨cluster, link⟩ := edge
  simp only [edgesTouching, List.mem_flatMap, List.mem_map, List.mem_filter,
    Std.ExtTreeMap.mem_keys, Edge.mk.injEq, mem_clustersOf sound]
  constructor
  · rintro ⟨_, _, _, ⟨old, touches⟩, rfl, rfl⟩
    exact ⟨touches, old⟩
  · rintro ⟨touches, old⟩
    exact ⟨cluster, ⟨link, touches, old⟩, link, ⟨old, touches⟩, rfl, rfl⟩

theorem mem_planTouching {kept : PairSet} {edge : Edge} :
    edge ∈ table.planTouching entity kept ↔
      edge.link.touches entity ∧ edge.link ∈ table.rowsOf edge.cluster ∧
        edge.link.pair ∉ kept := by
  simp [planTouching, mem_edgesTouching sound, and_assoc, ← Std.ExtTreeSet.contains_iff_mem]

end Lookup

/-- What a fold leaves at a cluster that each step at it looks up and no other step touches. -/
theorem getElem?_foldl {cluster : Id} {list : List Id}
    {step : Std.ExtTreeMap Id ScoreMap → Id → Std.ExtTreeMap Id ScoreMap}
    {loaded : Std.ExtTreeMap Id ScoreMap} (found : Option ScoreMap)
    (steps : ∀ loaded id, (step loaded id)[cluster]? =
      if cluster = id then found.or loaded[cluster]? else loaded[cluster]?) :
    (list.foldl step loaded)[cluster]? =
      if cluster ∈ list then found.or loaded[cluster]? else loaded[cluster]? := by
  induction list generalizing loaded with
  | nil => simp
  | cons id list ih =>
      simp only [List.foldl_cons, ih, List.mem_cons, steps]
      by_cases same : cluster = id
      · cases found <;> simp [same]
      · simp [same]

theorem getElem?_load (table : MatchTable) (ids : IdSet) (cluster : Id) :
    (table.load ids)[cluster]? =
      if cluster ∈ ids then table.clusters[cluster]?.map scoresOf else none := by
  refine (getElem?_foldl (table.clusters[cluster]?.map scoresOf) (fun loaded id => ?_)).trans ?_
  · by_cases same : cluster = id
    · subst same
      cases known : table.clusters[cluster]? <;> simp
    · cases table.clusters[id]? <;> simp [same, Ne.symm same, Std.ExtTreeMap.getElem?_insert]
  · simp

end MatchTable

end RecordLinkage
