import RecordLinkage.Proofs.Ascending
import RecordLinkage.Proofs.Feedback.Table

/-! A feedback table read as one map from unordered pairs to verdicts. What it finds about an entity and
what it removes are what the map says, each row once, in the order of the pairs. -/

namespace RecordLinkage

namespace EntityPair

/-- Two ways of naming two entities give one pair only if they name the same two. -/
theorem of_eq_iff {a b c d : EntityKey} : of a b = of c d ↔ a = c ∧ b = d ∨ a = d ∧ b = c := by
  have sides : ∀ a b : EntityKey, (of a b).first = a ∧ (of a b).second = b ∨
      (of a b).first = b ∧ (of a b).second = a := by
    intro a b
    unfold of
    split
    · exact .inl ⟨rfl, rfl⟩
    · exact .inr ⟨rfl, rfl⟩
  constructor
  · intro same
    have named := sides a b
    rw [same] at named
    rcases sides c d with ⟨first, second⟩ | ⟨first, second⟩
    all_goals
      rw [first, second] at named
      rcases named with ⟨rfl, rfl⟩ | ⟨rfl, rfl⟩ <;> simp
  · rintro (⟨rfl, rfl⟩ | ⟨rfl, rfl⟩)
    · rfl
    · exact of_comm a b

end EntityPair

abbrev Verdicts := Std.ExtTreeMap EntityPair Bool

namespace Verdicts

def rows (verdicts : Verdicts) : List Feedback := verdicts.toList.map fun (pair, linked) => ⟨pair, linked⟩

def about (verdicts : Verdicts) (verdict : Verdict) (entity : EntityKey) : Verdicts :=
  verdicts.filter fun pair linked => pair.involves entity && verdict.accepts linked

def delete (verdicts : Verdicts) (gone : EntityPair → Bool) : Nat × Verdicts :=
  (verdicts.keys.countP gone, verdicts.filter fun pair _ => !gone pair)

def reaches (set : Id) (keys : Option IdSet) (pair : EntityPair) : Bool :=
  let chosen (entity : EntityKey) : Bool := entity.set = set && keys.all fun keys => keys.contains entity.key
  chosen pair.first || chosen pair.second

variable {verdicts : Verdicts}

theorem ascending_rows (verdicts : Verdicts) : Ascending Feedback.pair verdicts.rows :=
  ascending_entries verdicts _ fun _ => rfl

theorem mem_rows {row : Feedback} : row ∈ verdicts.rows ↔ verdicts[row.pair]? = some row.linked := by
  obtain ⟨pair, linked⟩ := row
  simp only [rows, List.mem_map, Prod.exists, Feedback.mk.injEq, Std.ExtTreeMap.mem_toList_iff_getElem?_eq_some]
  constructor
  · rintro ⟨pair, linked, known, rfl, rfl⟩
    exact known
  · exact fun known => ⟨pair, linked, known, rfl, rfl⟩

theorem getElem?_about {verdict : Verdict} {entity : EntityKey} {pair : EntityPair} {linked : Bool} :
    (verdicts.about verdict entity)[pair]? = some linked ↔
      pair.involves entity ∧ verdicts[pair]? = some linked ∧ verdict.accepts linked := by
  simp only [about, Std.ExtTreeMap.getElem?_filter', Option.filter_eq_some_iff, Bool.and_eq_true]
  exact and_left_comm

end Verdicts

namespace FeedbackTable

variable {table : FeedbackTable} {pair : EntityPair}

theorem ascending_findByEntity (table : FeedbackTable) (entity : EntityKey) (verdict : Verdict) :
    Ascending Feedback.pair (table.findByEntity entity verdict) := by
  refine (List.Pairwise.filterMap table.get? ?_ (table.pairsOf entity).ordered_toList).filter _
  intro a b less row found row' found'
  simp only [get?, Option.map_eq_some_iff] at found found'
  obtain ⟨_, _, rfl⟩ := found
  obtain ⟨_, _, rfl⟩ := found'
  exact less

theorem Sound.findByEntity_eq (sound : table.Sound) (entity : EntityKey) (verdict : Verdict) :
    table.findByEntity entity verdict = (Verdicts.about table.rows verdict entity).rows :=
  (table.ascending_findByEntity entity verdict).eq_of_mem_iff (Verdicts.ascending_rows _) fun _ => by
    rw [mem_findByEntity sound, Verdicts.mem_rows, Verdicts.getElem?_about]

theorem mem_removeOne {removed : EntityPair} :
    pair ∈ (table.removeOne removed).2.rows ↔ pair ≠ removed ∧ pair ∈ table.rows := by
  unfold removeOne
  split
  · rw [Std.ExtTreeMap.mem_erase, ne_eq, Std.LawfulEqOrd.compare_eq_iff_eq, ne_comm]
  · rename_i absent
    refine (and_iff_right_of_imp ?_).symm
    rintro old rfl
    exact absent old

theorem removeOne_found (table : FeedbackTable) (removed : EntityPair) :
    (table.removeOne removed).1 = table.rows.contains removed := by
  unfold removeOne
  split <;> simp [*]

theorem mem_remove {pairs : List EntityPair} :
    pair ∈ (table.remove pairs).1 ↔ pair ∈ pairs ∧ pair ∈ table.rows := by
  induction pairs generalizing table with
  | nil => simp [remove]
  | cons first pairs ih =>
      have listed : pair ∈ (table.remove (first :: pairs)).1 ↔
          first ∈ table.rows ∧ pair = first ∨ pair ∈ ((table.removeOne first).2.remove pairs).1 := by
        simp only [remove, removeOne_found, Std.ExtTreeMap.contains_iff_mem]
        split <;> simp [*]
      rw [listed, ih, mem_removeOne, List.mem_cons]
      by_cases same : pair = first
      · simp [same]
      · simp [same]

theorem nodup_remove (table : FeedbackTable) (pairs : List EntityPair) : (table.remove pairs).1.Nodup := by
  induction pairs generalizing table with
  | nil => exact .nil
  | cons first pairs ih =>
      simp only [remove]
      split
      · rename_i found
        refine List.nodup_cons.mpr ⟨fun again => ?_, ih _⟩
        have old := (mem_remove.mp again).2
        rw [Std.ExtTreeMap.mem_iff_isSome_getElem?, getElem?_removeOne, if_pos ⟨found, rfl⟩] at old
        cases old
      · exact ih _

/-- A removal of what a test picks, whatever else is listed that has no row. -/
theorem remove_eq {pairs : List EntityPair} {gone : EntityPair → Bool}
    (same : ∀ pair ∈ table.rows, pair ∈ pairs ↔ gone pair) :
    ((table.remove pairs).1.length, (table.remove pairs).2.rows) = Verdicts.delete table.rows gone := by
  have picked : ∀ pair, pair ∈ (table.remove pairs).1 ↔ pair ∈ table.rows ∧ gone pair := by
    intro pair
    rw [mem_remove, and_comm]
    exact and_congr_right (same pair)
  refine Prod.ext ?_ ?_
  · have perm : (table.remove pairs).1.Perm (table.rows.keys.filter gone) := by
      refine (List.perm_ext_iff_of_nodup (table.nodup_remove pairs)
        (Std.ExtTreeMap.nodup_keys.filter _)).mpr fun pair => ?_
      rw [picked, List.mem_filter, Std.ExtTreeMap.mem_keys]
    rw [perm.length_eq, ← List.countP_eq_length_filter]
    rfl
  · apply Std.ExtTreeMap.ext_getElem?
    intro pair
    simp only [Verdicts.delete, getElem?_remove, picked, Std.ExtTreeMap.getElem?_filter',
      Std.ExtTreeMap.mem_iff_isSome_getElem?]
    cases table.rows[pair]? <;> cases gone pair <;> simp [Option.filter]

theorem Sound.remove_planEntity (sound : table.Sound) (entity : EntityKey) :
    ((table.remove (table.planEntity entity)).1.length, (table.remove (table.planEntity entity)).2.rows) =
      Verdicts.delete table.rows fun pair => pair.involves entity :=
  remove_eq fun pair known => by
    rw [planEntity, Std.ExtTreeSet.mem_toList, sound]
    exact and_iff_right known

theorem mem_planSet {set : Id} {keys : Option IdSet} : pair ∈ table.planSet set keys ↔
    ∃ entity : EntityKey, (entity.set = set && keys.all fun keys => keys.contains entity.key) ∧
      pair ∈ table.pairsOf entity := by
  have folded : ∀ (chosen : EntityKey → Bool) (groups : List (EntityKey × PairSet)) (planned : PairSet),
      pair ∈ groups.foldl (fun planned group =>
          if chosen group.1 then planned.insertMany group.2.toList else planned) planned ↔
        pair ∈ planned ∨ ∃ group ∈ groups, chosen group.1 ∧ pair ∈ group.2 := by
    intro chosen groups
    induction groups with
    | nil => simp
    | cons group groups ih =>
        intro planned
        rw [List.foldl_cons, ih]
        by_cases picked : chosen group.1 <;> simp [picked, or_assoc]
  rw [planSet, Std.ExtTreeSet.mem_toList]
  refine (folded (fun entity => entity.set = set && keys.all fun keys => keys.contains entity.key) _ _).trans ?_
  simp only [Std.ExtTreeSet.not_mem_empty, false_or, Prod.exists, Std.ExtTreeMap.mem_toList_iff_getElem?_eq_some]
  refine exists_congr fun entity => ?_
  rw [pairsOf, Std.ExtTreeMap.getD_eq_getD_getElem?]
  constructor
  · rintro ⟨pairs, known, chosen, listed⟩
    exact ⟨chosen, by rw [known]; exact listed⟩
  · rintro ⟨chosen, listed⟩
    cases known : table.byEntity[entity]? with
    | none => simp [known] at listed
    | some pairs => exact ⟨pairs, rfl, chosen, by simpa [known] using listed⟩

theorem Sound.remove_planSet (sound : table.Sound) (set : Id) (keys : Option IdSet) :
    ((table.remove (table.planSet set keys)).1.length, (table.remove (table.planSet set keys)).2.rows) =
      Verdicts.delete table.rows (Verdicts.reaches set keys) :=
  remove_eq fun pair known => by
    simp only [mem_planSet, sound _ pair, involves_iff, Verdicts.reaches, Bool.or_eq_true]
    constructor
    · rintro ⟨entity, chosen, _, rfl | rfl⟩
      · exact .inl chosen
      · exact .inr chosen
    · rintro (chosen | chosen)
      · exact ⟨_, chosen, known, .inl rfl⟩
      · exact ⟨_, chosen, known, .inr rfl⟩

end FeedbackTable

end RecordLinkage
