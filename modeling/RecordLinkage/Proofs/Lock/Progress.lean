import Mathlib.Logic.Relation
import RecordLinkage.Proofs.Lock.Shares

/-! Callers that share one lock table. Each takes the locks that it wants one at a time, keeps them while
it waits for the next, and gives them back together. As all take them in one order they do not wait for
each other in a circle: among those that wait, the one that waits for the last lock finds it free. -/

namespace RecordLinkage

namespace Lock

def Before : Lock → Lock → Prop
  | member first, member second => compare first second = .lt
  | member _, cluster _ => True
  | cluster _, member _ => False
  | cluster first, cluster second => compare first second = .lt

theorem not_before_self (lock : Lock) : ¬lock.Before lock := by
  cases lock <;> simp [Before]

theorem Before.trans {first second third : Lock} (before : first.Before second)
    (after : second.Before third) : first.Before third := by
  cases first <;> cases second <;> cases third <;> first
    | exact before.elim
    | exact after.elim
    | exact trivial
    | exact Std.TransCmp.lt_trans before after

theorem pairwise_sequence (members : EntitySet) (clusters : IdSet) :
    (sequence members clusters).Pairwise Before := by
  refine List.pairwise_append.mpr ⟨?_, ?_, ?_⟩
  · exact List.pairwise_map.mpr members.ordered_toList
  · exact List.pairwise_map.mpr clusters.ordered_toList
  · intro first entity second cluster
    obtain ⟨_, _, rfl⟩ := List.mem_map.mp entity
    obtain ⟨_, _, rfl⟩ := List.mem_map.mp cluster
    trivial

theorem exists_last {locks : List Lock} (some : locks ≠ []) :
    ∃ last ∈ locks, ∀ lock ∈ locks, ¬last.Before lock := by
  induction locks with
  | nil => exact absurd rfl some
  | cons first locks ih =>
      by_cases rest : locks = []
      · refine ⟨first, .head _, ?_⟩
        simpa [rest] using first.not_before_self
      obtain ⟨last, listed, none⟩ := ih rest
      by_cases before : last.Before first
      · refine ⟨first, .head _, ?_⟩
        intro lock among after
        rcases List.mem_cons.mp among with rfl | among
        · exact lock.not_before_self after
        · exact none lock among (before.trans after)
      · refine ⟨last, .tail _ listed, ?_⟩
        intro lock among
        rcases List.mem_cons.mp among with rfl | among
        · exact before
        · exact none lock among

end Lock

def lockInTurn : List LockTable → Program Unit
  | [] => return ()
  | wanted :: later => do
      acquire wanted.members wanted.clusters
      releaseLocks wanted.members wanted.clusters
      lockInTurn later

theorem lockInTurn_append (first later : List LockTable) :
    lockInTurn (first ++ later) = lockInTurn first >>= fun _ => lockInTurn later := by
  induction first with
  | nil => rfl
  | cons wanted first ih => simp only [List.cons_append, lockInTurn, ih, bind_assoc]

structure LockCaller where
  rest : Program Unit
  held : LockTable

structure LockCallers where
  table : LockTable
  callers : List LockCaller

namespace LockCallers

def start (wanted : List (List LockTable)) : LockCallers :=
  ⟨.empty, wanted.map fun sets => ⟨lockInTurn sets, .empty⟩⟩

inductive Step : LockCallers → LockCallers → Prop
  | take {table after : LockTable} {callers : List LockCaller} {index : Nat} {lock : Lock}
      {next : Unit → Program Unit} {held : LockTable} :
      callers[index]? = some ⟨.ask (.lock (.take lock)) next, held⟩ →
      table.answer? (.take lock) = some after →
      Step ⟨table, callers⟩ ⟨after, callers.set index ⟨next (), held.add lock⟩⟩
  | release {table after : LockTable} {callers : List LockCaller} {index : Nat} {members : EntitySet}
      {clusters : IdSet} {next : Unit → Program Unit} {held : LockTable} :
      callers[index]? = some ⟨.ask (.lock (.release members clusters)) next, held⟩ →
      table.answer? (.release members clusters) = some after →
      Step ⟨table, callers⟩ ⟨after, callers.set index ⟨next (), held.release members clusters⟩⟩
  | want {table : LockTable} {callers : List LockCaller} {index : Nat} {caller : LockCaller}
      (wanted : List LockTable) :
      callers[index]? = some caller →
      Step ⟨table, callers⟩ ⟨table, callers.set index ⟨do caller.rest; lockInTurn wanted, caller.held⟩⟩

end LockCallers

namespace LockCaller

def next? : LockCaller → Option Lock
  | ⟨.ask (.lock (.take lock)) _, _⟩ => some lock
  | _ => none

inductive GoesOn (table : LockTable) : LockCaller → Prop
  | release (wanted : LockTable) (next : Unit → Program Unit) :
      GoesOn table ⟨.ask (.lock (.release wanted.members wanted.clusters)) next, wanted⟩
  | take {lock : Lock} (next : Unit → Program Unit) (held : LockTable) :
      table.holds lock = false → GoesOn table ⟨.ask (.lock (.take lock)) next, held⟩

theorem next?_eq_some {caller : LockCaller} {lock : Lock} :
    caller.next? = some lock ↔ ∃ next, caller = ⟨.ask (.lock (.take lock)) next, caller.held⟩ := by
  constructor
  · intro wants
    unfold next? at wants
    split at wants
    · cases wants
      exact ⟨_, rfl⟩
    · cases wants
  · rintro ⟨next, same⟩
    rw [same]
    rfl

/-- What a caller has and what it is still going to do: it has nothing and is done, or it has the front of
the sequence of the locks that it wants and takes the others before it gives them back. -/
inductive Serves : LockCaller → Prop
  | idle : Serves ⟨.done (), .empty⟩
  | busy {wanted held : LockTable} {later : List LockTable} {taken remaining : List Lock}
      (all : Lock.sequence wanted.members wanted.clusters = taken ++ remaining)
      (some : taken ++ remaining ≠ [])
      (has : ∀ lock, held.holds lock ↔ lock ∈ taken) :
      Serves ⟨do takeLocks remaining; releaseLocks wanted.members wanted.clusters; lockInTurn later, held⟩

theorem serves_lockInTurn (wanted : List LockTable) : Serves ⟨lockInTurn wanted, .empty⟩ := by
  induction wanted with
  | nil => exact .idle
  | cons wanted later ih =>
      by_cases none : Lock.sequence wanted.members wanted.clusters = []
      · -- Nothing is wanted, and neither taken nor given back.
        have skips : lockInTurn (wanted :: later) = lockInTurn later := by
          obtain ⟨members, clusters⟩ := wanted
          obtain ⟨rfl, rfl⟩ : members = ∅ ∧ clusters = ∅ := by simpa [Lock.sequence] using none
          simp only [lockInTurn, acquire, none, takeLocks, releaseLocks, Std.ExtTreeSet.isEmpty_empty,
            Bool.and_self, if_true, pure_bind]
        rw [skips]
        exact ih
      · exact @Serves.busy wanted .empty later [] _ rfl none (by simp)

theorem Serves.want {caller : LockCaller} (serves : caller.Serves) (wanted : List LockTable) :
    Serves ⟨do caller.rest; lockInTurn wanted, caller.held⟩ := by
  cases serves with
  | idle => exact serves_lockInTurn wanted
  | @busy _ _ later _ _ all some has =>
      simp only [bind_assoc]
      rw [← lockInTurn_append later wanted]
      exact .busy all some has

theorem Serves.cases {caller : LockCaller} (serves : caller.Serves) :
    caller = ⟨.done (), .empty⟩ ∨
    (∃ lock next, caller = ⟨.ask (.lock (.take lock)) next, caller.held⟩ ∧
      (∀ other, caller.held.holds other → other.Before lock) ∧
      Serves ⟨next (), caller.held.add lock⟩) ∨
    (∃ members clusters next, caller = ⟨.ask (.lock (.release members clusters)) next, ⟨members, clusters⟩⟩ ∧
      Serves ⟨next (), .empty⟩) := by
  cases serves with
  | idle => exact .inl rfl
  | @busy wanted held later taken remaining all some has =>
      cases remaining with
      | cons lock remaining =>
          refine .inr (.inl ⟨lock, _, rfl, ?_, ?_⟩)
          · intro other holds
            have ordered := all ▸ Lock.pairwise_sequence wanted.members wanted.clusters
            exact (List.pairwise_append.mp ordered).2.2 other ((has other).mp holds) lock (.head _)
          · refine @Serves.busy wanted _ later (taken ++ [lock]) remaining (by simp [all]) (by simp) ?_
            intro other
            simp only [LockTable.holds_add, has, List.mem_append, List.mem_singleton]
            constructor
            · rintro (rfl | old)
              · exact .inr rfl
              · exact .inl old
            · rintro (old | rfl)
              · exact .inr old
              · exact .inl rfl
      | nil =>
          obtain rfl : held = wanted := by
            apply LockTable.ext_holds
            intro lock
            rw [has, ← Lock.mem_sequence, all, List.append_nil]
          refine .inr (.inr ⟨held.members, held.clusters, fun _ => lockInTurn later, ?_,
            serves_lockInTurn later⟩)
          have filled : (held.members.isEmpty && held.clusters.isEmpty) = false := by
            rw [Bool.eq_false_iff]
            intro none
            simp only [Bool.and_eq_true, Std.ExtTreeSet.isEmpty_iff] at none
            apply some
            rw [← all, none.1, none.2]
            simp [Lock.sequence]
          simp only [takeLocks, releaseLocks, filled, Bool.false_eq_true, if_false]
          rfl

end LockCaller

namespace LockCallers

variable {state : LockCallers}

def Has (state : LockCallers) (index : Nat) (lock : Lock) : Prop :=
  ∃ caller, state.callers[index]? = some caller ∧ caller.held.holds lock

structure Orderly (state : LockCallers) : Prop where
  serves : ∀ caller ∈ state.callers, caller.Serves
  held : ∀ lock, state.table.holds lock ↔ ∃ index, state.Has index lock
  apart : ∀ first second lock, state.Has first lock → state.Has second lock → first = second

theorem orderly_iff : state.Orderly ↔ (∀ caller ∈ state.callers, caller.Serves) ∧
    state.table.Shared (LockTable.listed LockCaller.held state.callers) := by
  constructor
  · intro orderly
    refine ⟨orderly.serves, ?_, ?_⟩
    · simpa only [LockTable.holds_listed, Has] using orderly.held
    · simpa only [LockTable.holds_listed, Has] using orderly.apart
  · rintro ⟨serves, all, apart⟩
    simp only [LockTable.holds_listed] at all apart
    exact ⟨serves, all, apart⟩

theorem orderly_start (wanted : List (List LockTable)) : (start wanted).Orderly := by
  refine orderly_iff.mpr ⟨?_, ?_⟩
  · intro caller listed
    obtain ⟨sets, _, rfl⟩ := List.mem_map.mp listed
    exact LockCaller.serves_lockInTurn sets
  · have none : LockTable.listed LockCaller.held (start wanted).callers = fun _ => .empty := by
      funext index
      simp only [LockTable.listed, start, List.getElem?_map, Option.map_map]
      cases wanted[index]? <;> rfl
    rw [none]
    exact LockTable.shared_empty

/-- One caller goes on, and the locks stay shared out. -/
theorem Orderly.set (orderly : state.Orderly) {index : Nat} {caller later : LockCaller}
    {after : LockTable} (found : state.callers[index]? = some caller) (serves : later.Serves)
    (shared : after.Shared (Function.update (LockTable.listed LockCaller.held state.callers) index
      later.held)) :
    Orderly ⟨after, state.callers.set index later⟩ := by
  refine orderly_iff.mpr ⟨?_, ?_⟩
  · intro other listed
    rcases List.mem_or_eq_of_mem_set listed with listed | rfl
    · exact orderly.serves other listed
    · exact serves
  · rwa [LockTable.listed_set (List.getElem?_eq_some_iff.mp found).1]

theorem Orderly.step {after : LockCallers} (orderly : state.Orderly) (step : Step state after) :
    after.Orderly := by
  obtain ⟨_, shared⟩ := orderly_iff.mp orderly
  cases step with
  | @take table _ callers index lock next held found answered =>
      obtain ⟨free, rfl⟩ : table.holds lock = false ∧ table.add lock = _ := by
        simpa [LockTable.answer?, LockTable.take?] using answered
      rcases (orderly.serves _ (List.mem_of_getElem? found)).cases with
        same | ⟨_, _, same, _, serves⟩ | ⟨_, _, _, same, _⟩
      · cases same
      · cases same
        refine orderly.set found serves ?_
        have own : LockTable.listed LockCaller.held callers index = held :=
          LockTable.listed_eq LockCaller.held found
        exact own ▸ shared.take free
      · cases same
  | @release table _ callers index members clusters next held found answered =>
      obtain rfl := Option.some.inj answered
      rcases (orderly.serves _ (List.mem_of_getElem? found)).cases with
        same | ⟨_, _, same, _⟩ | ⟨_, _, _, same, serves⟩
      · cases same
      · cases same
      · cases same
        rw [LockTable.release_self]
        exact orderly.set found serves (shared.release (LockTable.listed_eq LockCaller.held found))
  | @want table callers index caller wanted found =>
      refine orderly.set found ((orderly.serves _ (List.mem_of_getElem? found)).want wanted) ?_
      rwa [← LockTable.listed_eq LockCaller.held found, Function.update_eq_self]

theorem orderly_of_reached {wanted : List (List LockTable)}
    (reached : Relation.ReflTransGen Step (start wanted) state) : state.Orderly := by
  induction reached with
  | refl => exact orderly_start wanted
  | tail _ step ih => exact ih.step step

theorem step_of_goesOn {caller : LockCaller} (listed : caller ∈ state.callers)
    (goesOn : caller.GoesOn state.table) : ∃ after, Step state after := by
  obtain ⟨index, found⟩ := List.mem_iff_getElem?.mp listed
  cases goesOn with
  | release wanted next => exact ⟨_, .release found rfl⟩
  | take next held free => exact ⟨_, .take found (if_neg (by simp [free]))⟩

theorem someone_goes_on {wanted : List (List LockTable)}
    (reached : Relation.ReflTransGen Step (start wanted) state)
    (unfinished : ∃ caller ∈ state.callers, caller.rest ≠ .done ()) :
    ∃ caller ∈ state.callers, caller.GoesOn state.table := by
  have orderly := orderly_of_reached reached
  by_cases waiting : state.callers.filterMap LockCaller.next? = []
  · -- Nobody takes a lock, so whoever is not done gives locks back.
    obtain ⟨caller, listed, busy⟩ := unfinished
    rcases (orderly.serves caller listed).cases with rfl | ⟨lock, next, asks, _⟩ | ⟨_, _, next, rfl, _⟩
    · exact (busy rfl).elim
    · have wants : caller.next? = some lock := LockCaller.next?_eq_some.mpr ⟨next, asks⟩
      simp [List.filterMap_eq_nil_iff.mp waiting caller listed] at wants
    · exact ⟨_, listed, .release ⟨_, _⟩ next⟩
  · obtain ⟨last, wanted, none⟩ := Lock.exists_last waiting
    obtain ⟨caller, listed, wants⟩ := List.mem_filterMap.mp wanted
    obtain ⟨next, asks⟩ := LockCaller.next?_eq_some.mp wants
    by_cases free : state.table.holds last = false
    · exact ⟨caller, listed, asks ▸ .take next caller.held free⟩
    · -- Whoever has the last lock takes none, as that one would come after it.
      obtain ⟨index, owner, found, has⟩ := (orderly.held last).mp (by simpa using free)
      have among := List.mem_of_getElem? found
      rcases (orderly.serves owner among).cases with rfl | ⟨lock, next, asks, after, _⟩ |
        ⟨_, _, next, rfl, _⟩
      · simp at has
      · refine (none lock (List.mem_filterMap.mpr ⟨owner, among, ?_⟩) (after last has)).elim
        exact LockCaller.next?_eq_some.mpr ⟨next, asks⟩
      · exact ⟨_, among, .release ⟨_, _⟩ next⟩

/-- Two callers want locks on one entity; one of them took it and the other waits. -/
theorem someone_goes_on_contended :
    let entity : EntityKey := ⟨⟨1⟩, ⟨2⟩⟩
    let wanted : LockTable := ⟨.ofList [entity] compare, .ofList [⟨3⟩] compare⟩
    ∃ state, Relation.ReflTransGen Step (start [[wanted], [wanted, wanted]]) state ∧
      (∃ caller ∈ state.callers, caller.next? = some (.member entity) ∧
        state.table.take? (.member entity) = none) ∧
      ∃ caller ∈ state.callers, caller.GoesOn state.table := by
  intro entity wanted
  have step : Step (start [[wanted], [wanted, wanted]]) ⟨_, _⟩ :=
    @Step.take _ _ _ 0 (.member entity) _ _ rfl rfl
  refine ⟨_, .single step, ⟨⟨lockInTurn [wanted, wanted], .empty⟩, by simp, rfl, ?_⟩, ?_⟩
  · exact if_pos rfl
  · refine someone_goes_on (.single step) ⟨_, List.mem_cons_self, ?_⟩
    intro done
    cases done

end LockCallers

end RecordLinkage
