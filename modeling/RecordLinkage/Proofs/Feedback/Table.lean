import RecordLinkage.Feedback.Table

/-! The feedback table finds the rows about an entity through its index, whatever was written and removed. -/

namespace RecordLinkage

namespace FeedbackTable

def Sound (table : FeedbackTable) : Prop :=
  ∀ entity pair, pair ∈ table.pairsOf entity ↔ pair ∈ table.rows ∧ pair.involves entity

variable {table : FeedbackTable} {pair : EntityPair}

theorem mem_addPair {index : Std.ExtTreeMap EntityKey PairSet} {entity other : EntityKey}
    {added : EntityPair} : pair ∈ (addPair index entity added).getD other ∅ ↔
      entity = other ∧ added = pair ∨ pair ∈ index.getD other ∅ := by
  simp only [addPair, Std.ExtTreeMap.getD_insert, Std.LawfulEqOrd.compare_eq_iff_eq]
  split
  · rename_i same
    subst same
    simp
  · rename_i apart
    simp [apart]

theorem mem_erasePair {index : Std.ExtTreeMap EntityKey PairSet} {entity other : EntityKey}
    {erased : EntityPair} : pair ∈ (erasePair index entity erased).getD other ∅ ↔
      pair ∈ index.getD other ∅ ∧ ¬(entity = other ∧ erased = pair) := by
  have rest : (erasePair index entity erased).getD other ∅ =
      if entity = other then (index.getD other ∅).erase erased else index.getD other ∅ := by
    simp only [erasePair]
    split
    · rename_i none
      rw [Std.ExtTreeSet.isEmpty_iff] at none
      simp only [Std.ExtTreeMap.getD_erase, Std.LawfulEqOrd.compare_eq_iff_eq]
      split
      · rename_i same
        rw [← same, none]
      · rfl
    · simp only [Std.ExtTreeMap.getD_insert, Std.LawfulEqOrd.compare_eq_iff_eq]
      split
      · rename_i same
        rw [same]
      · rfl
  rw [rest]
  split
  · rename_i same
    simp [same, and_comm]
  · rename_i apart
    simp [apart]

theorem sound_empty : empty.Sound := by
  intro entity pair
  simp [empty, pairsOf]

theorem involves_iff {entity : EntityKey} :
    pair.involves entity ↔ pair.first = entity ∨ pair.second = entity := by
  simp [EntityPair.involves]

theorem Sound.upsert (sound : table.Sound) (row : Feedback) : (table.upsert row).Sound := by
  intro entity pair
  have old := sound entity pair
  simp only [pairsOf] at old
  simp only [FeedbackTable.upsert, pairsOf]
  split
  · rename_i known
    rw [old, Std.ExtTreeMap.mem_insert, Std.LawfulEqOrd.compare_eq_iff_eq]
    constructor
    · rintro ⟨listed, about⟩
      exact ⟨.inr listed, about⟩
    · rintro ⟨rfl | listed, about⟩
      · exact ⟨known, about⟩
      · exact ⟨listed, about⟩
  · simp only [mem_addPair, old, involves_iff, Std.ExtTreeMap.mem_insert,
      Std.LawfulEqOrd.compare_eq_iff_eq]
    constructor
    · rintro (⟨about, rfl⟩ | ⟨about, rfl⟩ | ⟨listed, about⟩)
      · exact ⟨.inl rfl, .inr about⟩
      · exact ⟨.inl rfl, .inl about⟩
      · exact ⟨.inr listed, about⟩
    · rintro ⟨rfl | listed, about⟩
      · rcases about with first | second
        · exact .inr (.inl ⟨first, rfl⟩)
        · exact .inl ⟨second, rfl⟩
      · exact .inr (.inr ⟨listed, about⟩)

theorem Sound.removeOne (sound : table.Sound) (removed : EntityPair) :
    (table.removeOne removed).2.Sound := by
  unfold FeedbackTable.removeOne
  split
  · intro entity pair
    have old := sound entity pair
    simp only [pairsOf] at old
    simp only [pairsOf, mem_erasePair, old, involves_iff, Std.ExtTreeMap.mem_erase, Ne,
      Std.LawfulEqOrd.compare_eq_iff_eq]
    constructor
    · rintro ⟨⟨⟨listed, about⟩, first⟩, second⟩
      refine ⟨⟨?_, listed⟩, about⟩
      rintro rfl
      rcases about with same | same
      · exact first ⟨same, rfl⟩
      · exact second ⟨same, rfl⟩
    · rintro ⟨⟨apart, listed⟩, about⟩
      exact ⟨⟨⟨listed, about⟩, fun same => apart same.2⟩, fun same => apart same.2⟩
  · exact sound

theorem Sound.remove (sound : table.Sound) (pairs : List EntityPair) :
    (table.remove pairs).2.Sound := by
  induction pairs generalizing table with
  | nil => exact sound
  | cons first pairs ih => exact ih (sound.removeOne first)

theorem getElem?_upsert (row : Feedback) :
    (table.upsert row).rows[pair]? = if row.pair = pair then some row.linked else table.rows[pair]? := by
  simp only [upsert, Std.ExtTreeMap.getElem?_insert, Std.LawfulEqOrd.compare_eq_iff_eq]

theorem getElem?_removeOne (removed : EntityPair) :
    (table.removeOne removed).2.rows[pair]? =
      if (table.removeOne removed).1 ∧ removed = pair then none else table.rows[pair]? := by
  unfold removeOne
  split
  · simp only [Std.ExtTreeMap.getElem?_erase, Std.LawfulEqOrd.compare_eq_iff_eq, true_and]
  · simp

/-- A removal takes exactly the pairs that it answers. -/
theorem getElem?_remove (pairs : List EntityPair) :
    (table.remove pairs).2.rows[pair]? =
      if pair ∈ (table.remove pairs).1 then none else table.rows[pair]? := by
  induction pairs generalizing table with
  | nil => simp [remove]
  | cons first pairs ih =>
      simp only [remove]
      rw [ih, getElem?_removeOne]
      by_cases found : (table.removeOne first).1
      · by_cases same : first = pair
        · subst same
          simp [found]
        · simp [found, same, Ne.symm same]
      · simp [found]

theorem map_linked_get? : (table.get? pair).map Feedback.linked = table.rows[pair]? := by
  simp [get?, Function.comp_def]

theorem mem_findByEntity {entity : EntityKey} {verdict : Verdict} {row : Feedback}
    (sound : table.Sound) : row ∈ table.findByEntity entity verdict ↔
      row.pair.involves entity ∧ table.rows[row.pair]? = some row.linked ∧
        verdict.accepts row.linked := by
  obtain ⟨pair, linked⟩ := row
  simp only [findByEntity, get?, List.mem_filter, List.mem_filterMap, Std.ExtTreeSet.mem_toList,
    sound entity, Option.map_eq_some_iff, Feedback.mk.injEq]
  constructor
  · rintro ⟨⟨pair', ⟨_, about⟩, linked', known, rfl, rfl⟩, accepts⟩
    exact ⟨about, known, accepts⟩
  · rintro ⟨about, known, accepts⟩
    refine ⟨⟨pair, ⟨?_, about⟩, linked, known, rfl, rfl⟩, accepts⟩
    rw [Std.ExtTreeMap.mem_iff_isSome_getElem?, known]
    rfl

/-- A row that is found is in the table, sound or not. -/
theorem getElem?_of_mem_findByEntity {entity : EntityKey} {verdict : Verdict} {row : Feedback}
    (listed : row ∈ table.findByEntity entity verdict) :
    table.rows[row.pair]? = some row.linked := by
  simp only [findByEntity, get?, List.mem_filter, List.mem_filterMap, Option.map_eq_some_iff] at listed
  obtain ⟨⟨pair, _, linked, known, rfl⟩, _⟩ := listed
  exact known

end FeedbackTable

end RecordLinkage
