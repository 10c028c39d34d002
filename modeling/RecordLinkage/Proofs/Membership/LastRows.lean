import RecordLinkage.Proofs.Membership.Fold

/-! What the fold over any rows says. An entity is a member if it has a row up to the time and none of its rows
of the greatest time is a departure. A set is listed only with members. Which rows there are decides, not where
they stand or how often. -/

namespace RecordLinkage

namespace LogEntry

def time (entry : LogEntry) : Nat := entry.stamp.toInt.natAbs

theorem micros_eq_time {row : LogEntry} (inner : row.stamp ≠ Int64.minValue) : row.micros = row.time := by
  refine Membership.abs_eq_natAbs fun least => inner ?_
  exact Int64.toInt_inj.mp least

end LogEntry

namespace Members

def Filled (members : Members) : Prop :=
  ∀ (set : Id) (keys : IdSet), members[set]? = some keys → ∃ key, key ∈ keys

theorem filled_empty : Filled ∅ := by
  intro set keys listed
  simp at listed

theorem filled_add {members : Members} (filled : members.Filled) (entity : EntityKey) :
    (members.add entity).Filled := by
  intro set keys listed
  rw [add, Std.ExtTreeMap.getElem?_insert] at listed
  split at listed
  · obtain rfl := Option.some.inj listed
    exact ⟨entity.key, Std.ExtTreeSet.mem_insert_self⟩
  · exact filled set keys listed

end Members

namespace Membership

variable {rows others : List LogEntry} {asOf : Int} {entity : EntityKey} {row : LogEntry}

def rowsUpTo (rows : List LogEntry) (asOf : Int) (entity : EntityKey) : List LogEntry :=
  rows.filter fun row => row.entity = entity && row.time ≤ asOf

/-- A row of the greatest time; there may be others of the same time. -/
structure IsLatest (rows : List LogEntry) (row : LogEntry) : Prop where
  listed : row ∈ rows
  greatest : ∀ other ∈ rows, other.time ≤ row.time

theorem mem_rowsUpTo : row ∈ rowsUpTo rows asOf entity ↔ row ∈ rows ∧ row.entity = entity ∧ row.time ≤ asOf := by
  simp [rowsUpTo]

theorem filled_fold (rows : List LogEntry) (asOf : Int) : (fold rows asOf).Filled := by
  have kept : ∀ (list : List (EntityKey × Bool)) (members : Members), members.Filled →
      (list.foldl (fun members entry => if entry.2 then members.add entry.1 else members) members).Filled := by
    intro list
    induction list with
    | nil => exact fun _ filled => filled
    | cons entry list ih =>
        intro members filled
        refine ih _ ?_
        dsimp only
        split
        · exact Members.filled_add filled entry.1
        · exact filled
  exact kept (presence rows asOf).toList ∅ Members.filled_empty

theorem LastRow.of_mem_iff (last : LastRow rows asOf entity row) (same : ∀ row, row ∈ others ↔ row ∈ rows) :
    LastRow others asOf entity row where
  listed := (same row).mpr last.listed
  about := last.about
  inTime := last.inTime
  last := fun other found => last.last other ((same other).mp found)

theorem presence_eq_of_mem_iff (same : ∀ row, row ∈ others ↔ row ∈ rows) :
    presence others asOf = presence rows asOf := by
  refine Std.ExtTreeMap.ext_getElem? fun entity => ?_
  rcases presence_cases rows asOf entity with ⟨none, absent⟩ | ⟨row, last, present⟩
  · rcases presence_cases others asOf entity with ⟨_, absent'⟩ | ⟨row, last, _⟩
    · rw [absent, absent']
    · exact absurd last.inTime (none row ((same row).mp last.listed) last.about)
  · rw [present, presence_of_lastRow (last.of_mem_iff same)]

theorem has_fold_iff_latest (inner : ∀ row ∈ rows, row.stamp ≠ Int64.minValue) (entity : EntityKey) :
    (fold rows asOf).has entity ↔ rowsUpTo rows asOf entity ≠ [] ∧
      ∀ row, IsLatest (rowsUpTo rows asOf entity) row → row.isDeparture = false := by
  have time {row : LogEntry} (listed : row ∈ rows) : row.micros = row.time :=
    LogEntry.micros_eq_time (inner row listed)
  rw [has_fold]
  rcases presence_cases rows asOf entity with ⟨none, absent⟩ | ⟨row, last, present⟩
  · rw [absent]
    refine iff_of_false nofun fun ⟨filled, _⟩ => ?_
    obtain ⟨row, found⟩ := List.exists_mem_of_ne_nil _ filled
    obtain ⟨listed, about, inTime⟩ := mem_rowsUpTo.mp found
    exact none row listed about (time listed ▸ inTime)
  · have own : row ∈ rowsUpTo rows asOf entity :=
      mem_rowsUpTo.mpr ⟨last.listed, last.about, time last.listed ▸ last.inTime⟩
    have order : ∀ other ∈ rowsUpTo rows asOf entity,
        other.time < row.time ∨ other.time = row.time ∧ (other.isDeparture → row.isDeparture) := by
      intro other found
      obtain ⟨listed, about, inTime⟩ := mem_rowsUpTo.mp found
      have before := LogEntry.before_iff.mp (last.last other listed about (time listed ▸ inTime))
      rw [time listed, time last.listed] at before
      exact before.imp Int.ofNat_lt.mp (And.imp_left Int.ofNat_inj.mp)
    rw [present, Option.some.injEq, Bool.not_eq_true']
    constructor
    · -- A departure of the greatest time would have made the last row one.
      intro arrived
      refine ⟨List.ne_nil_of_mem own, fun top latest => ?_⟩
      have above := latest.greatest row own
      rcases order top latest.listed with less | ⟨_, departs⟩
      · omega
      · exact Bool.eq_false_iff.mpr fun departure => by simp [departs departure] at arrived
    · rintro ⟨_, arrived⟩
      refine arrived row ⟨own, fun other found => ?_⟩
      have below := order other found
      omega

/-- The fold lists just the entities that have a row up to the time and no departure among their rows of the
greatest time, under no set that is left without one, and says the same of the same rows in any order and
number. -/
theorem fold_decided_by_latest (asOf : Int) (inner : ∀ row ∈ rows, row.stamp ≠ Int64.minValue) :
    (∀ entity, (fold rows asOf).has entity ↔ rowsUpTo rows asOf entity ≠ [] ∧
      ∀ row, IsLatest (rowsUpTo rows asOf entity) row → row.isDeparture = false) ∧
    (∀ (set : Id) (keys : IdSet), (fold rows asOf)[set]? = some keys → ∃ key, key ∈ keys) ∧
    ∀ others, (∀ row, row ∈ others ↔ row ∈ rows) → fold others asOf = fold rows asOf := by
  refine ⟨has_fold_iff_latest inner, filled_fold rows asOf, fun others same => ?_⟩
  rw [fold, fold, presence_eq_of_mem_iff same]

end Membership

namespace Sample

def adam : EntityKey := ⟨.ofNat 1, .ofNat 1⟩

def beth : EntityKey := ⟨.ofNat 1, .ofNat 2⟩

def carl : EntityKey := ⟨.ofNat 2, .ofNat 1⟩

/-- Up to the time 10 the first has arrived and left at once, the second was there at 0, left at 5 and is back
since 8, and the third has only left. -/
def tied : List LogEntry :=
  [(adam, -10), (beth, 8), (adam, 10), (beth, -11), (carl, -7), (beth, -5), (beth, 0), (beth, 8)].map
    fun (entity, stamp) => ⟨.ofNat 9, entity, stamp⟩

theorem fold_decided_of_tied : (∀ row ∈ tied, row.stamp ≠ Int64.minValue) ∧
    ¬(Membership.fold tied 10).has adam ∧ (Membership.fold tied 10).has beth ∧
    (Membership.fold tied 10)[carl.set]? = none ∧
    Membership.fold tied.reverse 10 = Membership.fold tied 10 := by
  have inner : ∀ row ∈ tied, row.stamp ≠ Int64.minValue := by decide
  obtain ⟨has, filled, same⟩ := Membership.fold_decided_by_latest 10 inner
  have gone : ∀ entity stamp, Membership.IsLatest (Membership.rowsUpTo tied 10 entity) ⟨.ofNat 9, entity, stamp⟩ →
      stamp < 0 → ¬(Membership.fold tied 10).has entity := by
    intro entity stamp latest departs member
    have arrived := ((has entity).mp member).2 _ latest
    exact of_decide_eq_false arrived departs
  refine ⟨inner, gone adam (-10) ⟨by decide, by decide⟩ (by decide), ?_, ?_, same _ fun _ => List.mem_reverse⟩
  · have arrived : ∀ row ∈ Membership.rowsUpTo tied 10 beth,
        (∀ other ∈ Membership.rowsUpTo tied 10 beth, other.time ≤ row.time) → row.isDeparture = false := by decide
    exact (has beth).mpr ⟨by decide, fun row latest => arrived row latest.listed latest.greatest⟩
  · refine Option.eq_none_iff_forall_ne_some.mpr fun keys listed => ?_
    obtain ⟨key, among⟩ := filled _ _ listed
    have member : (Membership.fold tied 10).has ⟨carl.set, key⟩ := by
      simpa [Members.has, listed, Std.ExtTreeMap.getD_eq_getD_getElem?] using among
    obtain ⟨row, found⟩ := List.exists_mem_of_ne_nil _ ((has _).mp member).1
    obtain ⟨logged, about, _⟩ := Membership.mem_rowsUpTo.mp found
    have only : ∀ row ∈ tied, row.entity.set = carl.set → row.entity = carl := by decide
    have same : (⟨carl.set, key⟩ : EntityKey) = carl := about ▸ only row logged (about ▸ rfl)
    exact gone carl (-7) ⟨by decide, by decide⟩ (by decide) (same ▸ member)

end Sample

end RecordLinkage
