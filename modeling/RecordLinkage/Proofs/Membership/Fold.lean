import RecordLinkage.Membership.Table

/-! Membership is decided by the last row of an entity: the one of the latest time, and of those the
departure if there is one. Where the rows stand in the log does not matter. -/

namespace RecordLinkage

namespace LogEntry

theorem before_iff {a b : LogEntry} : a.before b ↔
    a.micros < b.micros ∨ a.micros = b.micros ∧ (a.isDeparture → b.isDeparture) := by
  simp only [before, Bool.or_eq_true, Bool.and_eq_true, decide_eq_true_eq]
  cases a.isDeparture <;> simp

theorem before_trans (a b c : LogEntry) (first : a.before b) (second : b.before c) :
    a.before c := by
  rw [before_iff] at *
  rcases first with first | ⟨first, later⟩ <;> rcases second with second | ⟨second, later'⟩
  · exact .inl (by omega)
  · exact .inl (by omega)
  · exact .inl (by omega)
  · exact .inr ⟨by omega, fun departure => later' (later departure)⟩

theorem before_total (a b : LogEntry) : a.before b || b.before a := by
  rw [Bool.or_eq_true, before_iff, before_iff]
  rcases Int.lt_trichotomy a.micros b.micros with less | same | more
  · exact .inl (.inl less)
  · cases departs : b.isDeparture with
    | true => exact .inl (.inr ⟨same, fun _ => rfl⟩)
    | false => exact .inr (.inr ⟨same.symm, by simp⟩)
  · exact .inr (.inl more)

theorem isDeparture_eq_of_before {a b : LogEntry} (first : a.before b) (second : b.before a) :
    a.isDeparture = b.isDeparture := by
  rw [before_iff] at first second
  have same : a.micros = b.micros := by omega
  have forth : a.isDeparture → b.isDeparture := by
    rcases first with first | first
    · omega
    · exact first.2
  have back : b.isDeparture → a.isDeparture := by
    rcases second with second | second
    · omega
    · exact second.2
  exact Bool.eq_iff_iff.mpr ⟨forth, back⟩
end LogEntry

namespace Membership

structure LastRow (rows : List LogEntry) (asOf : Int) (entity : EntityKey) (row : LogEntry) :
    Prop where
  listed : row ∈ rows
  about : row.entity = entity
  inTime : row.micros ≤ asOf
  last : ∀ other ∈ rows, other.entity = entity → other.micros ≤ asOf → other.before row

def inOrder (rows : List LogEntry) (asOf : Int) : List LogEntry :=
  (rows.filter fun entry => entry.micros ≤ asOf).mergeSort LogEntry.before

theorem mem_inOrder {rows : List LogEntry} {asOf : Int} {row : LogEntry} :
    row ∈ inOrder rows asOf ↔ row ∈ rows ∧ row.micros ≤ asOf := by
  simp [inOrder]

theorem getElem?_presence (rows : List LogEntry) (asOf : Int) (entity : EntityKey) :
    (presence rows asOf)[entity]? =
      ((inOrder rows asOf).filter fun row => row.entity = entity).getLast?.map
        fun row => !row.isDeparture := by
  have folded : ∀ (list : List LogEntry) (known : Std.ExtTreeMap EntityKey Bool),
      (list.foldl (fun presence entry => presence.insert entry.entity (!entry.isDeparture))
        known)[entity]? =
        ((list.filter fun row => row.entity = entity).getLast?.map fun row =>
          !row.isDeparture).or known[entity]? := by
    intro list
    induction list with
    | nil => simp
    | cons row list ih =>
        intro known
        rw [List.foldl_cons, ih, Std.ExtTreeMap.getElem?_insert]
        by_cases same : row.entity = entity
        · simp only [same, List.filter_cons, decide_true, if_true, List.getLast?_cons,
            Std.LawfulEqOrd.compare_eq_iff_eq]
          cases (list.filter fun row => row.entity = entity).getLast? <;> simp
        · simp [same]
  refine (folded (inOrder rows asOf) ∅).trans ?_
  simp

/-- An entity without a row is not listed; any other is listed as its last row says. -/
theorem presence_cases (rows : List LogEntry) (asOf : Int) (entity : EntityKey) :
    ((∀ row ∈ rows, row.entity = entity → ¬row.micros ≤ asOf) ∧
        (presence rows asOf)[entity]? = none) ∨
      ∃ row, LastRow rows asOf entity row ∧
        (presence rows asOf)[entity]? = some (!row.isDeparture) := by
  have listed : ∀ row, row ∈ (inOrder rows asOf).filter (fun row => row.entity = entity) ↔
      (row ∈ rows ∧ row.micros ≤ asOf) ∧ row.entity = entity := by
    simp [mem_inOrder]
  have ordered : ((inOrder rows asOf).filter fun row => row.entity = entity).Pairwise
      fun a b => a.before b :=
    .filter _ (List.pairwise_mergeSort LogEntry.before_trans LogEntry.before_total _)
  rw [getElem?_presence]
  rcases List.eq_nil_or_concat ((inOrder rows asOf).filter fun row => row.entity = entity)
    with none | ⟨earlier, last, split⟩
  · refine .inl ⟨?_, by simp [none]⟩
    intro row found same inTime
    have some := (listed row).mpr ⟨⟨found, inTime⟩, same⟩
    simp [none] at some
  · rw [List.concat_eq_append] at split
    rw [split] at listed ordered
    have top := (listed last).mp (by simp)
    refine .inr ⟨last, ⟨top.1.1, top.2, top.1.2, ?_⟩, by simp [split]⟩
    intro other found same inTime
    rcases List.mem_append.mp ((listed other).mpr ⟨⟨found, inTime⟩, same⟩) with early | late
    · exact (List.pairwise_append.mp ordered).2.2 other early last (by simp)
    · rw [List.mem_singleton.mp late, LogEntry.before_iff]
      exact .inr ⟨rfl, id⟩

theorem presence_of_lastRow {rows : List LogEntry} {asOf : Int} {entity : EntityKey}
    {row : LogEntry} (last : LastRow rows asOf entity row) :
    (presence rows asOf)[entity]? = some (!row.isDeparture) := by
  rcases presence_cases rows asOf entity with ⟨none, _⟩ | ⟨other, otherLast, present⟩
  · exact absurd last.inTime (none row last.listed last.about)
  · have forth := last.last other otherLast.listed otherLast.about otherLast.inTime
    have back := otherLast.last row last.listed last.about last.inTime
    rw [present, LogEntry.isDeparture_eq_of_before forth back]

theorem has_add (members : Members) (added entity : EntityKey) :
    (members.add added).has entity ↔ added = entity ∨ members.has entity := by
  obtain ⟨set, key⟩ := added
  obtain ⟨set', key'⟩ := entity
  simp only [Members.add, Members.has, Std.ExtTreeMap.getD_insert, EntityKey.mk.injEq,
    Std.LawfulEqOrd.compare_eq_iff_eq]
  by_cases same : set = set'
  · subst same
    simp
  · simp [same]

theorem presence_nil (asOf : Int) : presence [] asOf = ∅ := by
  simp [presence]

theorem has_fold (rows : List LogEntry) (asOf : Int) (entity : EntityKey) :
    (fold rows asOf).has entity ↔ (presence rows asOf)[entity]? = some true := by
  have folded : ∀ (list : List (EntityKey × Bool)) (members : Members),
      (list.foldl
        (fun members entry => if entry.2 then Members.add members entry.1 else members)
        members).has entity ↔
        members.has entity ∨ (entity, true) ∈ list := by
    intro list
    induction list with
    | nil => simp
    | cons entry list ih =>
        intro members
        obtain ⟨other, present⟩ := entry
        rw [List.foldl_cons, ih]
        cases present with
        | false => simp
        | true =>
            simp only [if_true, has_add, List.mem_cons, Prod.mk.injEq, and_true]
            constructor
            · rintro ((same | old) | listed)
              · exact .inr (.inl same.symm)
              · exact .inl old
              · exact .inr (.inr listed)
            · rintro (old | same | listed)
              · exact .inl (.inr old)
              · exact .inl (.inl same.symm)
              · exact .inr listed
  refine (folded (presence rows asOf).toList ∅).trans ?_
  rw [Std.ExtTreeMap.mem_toList_iff_getElem?_eq_some]
  simp [Members.has]

section Append

variable {rows added : List LogEntry} {asOf : Int} {entity : EntityKey}

theorem presence_append_apart (apart : ∀ row ∈ added, row.entity ≠ entity) :
    (presence (rows ++ added) asOf)[entity]? = (presence rows asOf)[entity]? := by
  rcases presence_cases rows asOf entity with ⟨none, absent⟩ | ⟨row, last, present⟩
  · rw [absent]
    rcases presence_cases (rows ++ added) asOf entity with ⟨_, absent⟩ | ⟨row, last, _⟩
    · exact absent
    · rcases List.mem_append.mp last.listed with old | new
      · exact absurd last.inTime (none row old last.about)
      · exact absurd last.about (apart row new)
  · rw [present]
    refine presence_of_lastRow ⟨List.mem_append_left _ last.listed, last.about, last.inTime, ?_⟩
    intro other found same inTime
    rcases List.mem_append.mp found with old | new
    · exact last.last other old same inTime
    · exact absurd same (apart other new)

/-- Rows that are later than every other one of their entity decide. -/
theorem presence_append_later {row : LogEntry} (new : row ∈ added) (about : row.entity = entity)
    (inTime : row.micros ≤ asOf)
    (same : ∀ other ∈ added, other.entity = entity → other.stamp = row.stamp)
    (later : ∀ other ∈ rows, other.entity = entity → other.micros < row.micros) :
    (presence (rows ++ added) asOf)[entity]? = some (!row.isDeparture) := by
  refine presence_of_lastRow ⟨List.mem_append_right _ new, about, inTime, ?_⟩
  intro other found about' _
  rw [LogEntry.before_iff]
  rcases List.mem_append.mp found with old | new
  · exact .inl (later other old about')
  · have stamp := same other new about'
    simp only [LogEntry.micros, LogEntry.isDeparture, stamp]
    exact .inr ⟨trivial, id⟩

end Append

theorem micros_le_latest (row : LogEntry) : row.micros ≤ latest := by
  have bound := Int64.toInt_lt row.stamp.abs
  simp only [LogEntry.micros, latest]
  omega

theorem abs_eq_natAbs {stamp : Int64} (inner : stamp.toInt ≠ -2 ^ 63) :
    stamp.abs.toInt = stamp.toInt.natAbs := by
  refine BitVec.toInt_abs_eq_natAbs_of_ne_intMin ?_
  intro least
  apply inner
  rw [← Int64.toInt_toBitVec, least]
  rfl

/-- The stamps of one time: it can be read off either, and only the negative one is a departure. -/
theorem stamp_ofInt {time : Int} (start : 1 ≤ time) (bound : time ≤ latest) :
    (Int64.ofInt time).abs.toInt = time ∧ (Int64.ofInt (-time)).abs.toInt = time ∧
      ¬Int64.ofInt time < 0 ∧ Int64.ofInt (-time) < 0 := by
  simp only [latest] at bound
  have positive : (Int64.ofInt time).toInt = time :=
    Int64.toInt_ofInt_of_le (by omega) (by omega)
  have negative : (Int64.ofInt (-time)).toInt = -time :=
    Int64.toInt_ofInt_of_le (by omega) (by omega)
  have apart : (Int64.ofInt time).toInt ≠ -2 ^ 63 := by omega
  have apart' : (Int64.ofInt (-time)).toInt ≠ -2 ^ 63 := by omega
  simp only [Int64.lt_iff_toInt_lt, abs_eq_natAbs apart,
    abs_eq_natAbs apart', positive, negative, Int64.toInt_zero]
  omega

theorem stamp_decides {time : Int} {arrived : Bool} {entry : LogEntry} (start : 1 ≤ time)
    (bound : time ≤ latest)
    (stamp : entry.stamp = .ofInt (if arrived then time else -time)) :
    entry.micros = time ∧ entry.isDeparture = !arrived := by
  obtain ⟨forth, back, positive, negative⟩ := stamp_ofInt start bound
  simp only [LogEntry.micros, LogEntry.isDeparture, stamp]
  cases arrived with
  | true => exact ⟨forth, by simpa using positive⟩
  | false => exact ⟨back, by simpa using negative⟩

theorem one_le_tick (last : Int) (now : Instant) : 1 ≤ tick last now := by
  simp only [tick]
  omega

theorem lt_tick (last : Int) (now : Instant) : last < tick last now := by
  simp only [tick]
  omega

end Membership

namespace Members

theorem mem_entities {members : Members} {entity : EntityKey} :
    entity ∈ members.entities ↔ members.has entity := by
  obtain ⟨set, key⟩ := entity
  simp only [entities, has, List.mem_flatMap, List.mem_map, EntityKey.mk.injEq, Prod.exists,
    Std.ExtTreeMap.mem_toList_iff_getElem?_eq_some, Std.ExtTreeSet.mem_toList,
    Std.ExtTreeMap.getD_eq_getD_getElem?]
  constructor
  · rintro ⟨_, keys, found, _, listed, rfl, rfl⟩
    simp [found, listed]
  · intro listed
    cases found : members[set]? with
    | none => simp [found] at listed
    | some keys => exact ⟨set, keys, found, key, by simpa [found] using listed, rfl, rfl⟩

theorem has_ofEntities {list : List EntityKey} {entity : EntityKey} :
    (ofEntities list).has entity ↔ entity ∈ list := by
  have folded : ∀ members : Members,
      (list.foldl add members).has entity ↔ entity ∈ list ∨ members.has entity := by
    induction list with
    | nil => simp
    | cons first list ih =>
        intro members
        refine (ih _).trans ?_
        rw [Membership.has_add, List.mem_cons]
        constructor
        · rintro (later | same | old)
          · exact .inl (.inr later)
          · exact .inl (.inl same.symm)
          · exact .inr old
        · rintro ((same | later) | old)
          · exact .inr (.inl same.symm)
          · exact .inl later
          · exact .inr (.inr old)
  refine (folded ∅).trans ?_
  simp [has]

theorem has_single {added entity : EntityKey} : (single added).has entity ↔ added = entity := by
  rw [single, Membership.has_add]
  simp [has]

end Members

namespace LogTable

theorem entriesFor_append (table : LogTable) (added : List LogEntry) (cluster : Id) :
    (table.append added).entriesFor cluster =
      table.entriesFor cluster ++ added.filter fun entry => entry.cluster = cluster := by
  induction added generalizing table with
  | nil => simp [append]
  | cons entry added ih =>
      refine (ih _).trans ?_
      by_cases same : entry.cluster = cluster
      · subst same
        simp [entriesFor]
      · simp [entriesFor, Std.ExtTreeMap.getD_insert, same]

end LogTable

end RecordLinkage
