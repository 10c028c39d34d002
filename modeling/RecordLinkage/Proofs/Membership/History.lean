import Mathlib.Data.List.Perm.Basic
import RecordLinkage.Proofs.Linking.Preparing
import RecordLinkage.Proofs.Membership.Clock
import RecordLinkage.Proofs.Membership.Traffic

/-! Membership at any instant, from a log that many change at once. The rows of a cluster are those of the
changes on record, each with a tick of its own, so that the fold over them is what these changes made in
the order of their ticks. -/

namespace RecordLinkage

namespace LogTraffic

open MembershipChange

structure Clocked (state : LogTraffic) : Prop where
  taken : ∀ index tick, (index, tick) ∈ state.ticks →
    index < state.callers.length ∧ 1 ≤ tick ∧ tick ≤ state.system.lastTick
  ascending : state.ticks.Pairwise fun a b => a.2 < b.2
  owned : ∀ index caller, state.callers[index]? = some caller →
    ∀ tick, caller.tick = some tick ↔ (index, tick) ∈ state.ticks

structure Records (ticks : List (Nat × Int)) (rowsOf : Id → List LogEntry) (changes : List MembershipChange) :
    Prop where
  known : ∀ change ∈ changes, ∃ index, (index, change.tick) ∈ ticks
  distinct : (changes.map MembershipChange.tick).Nodup
  rows : ∀ cluster, rowsOf cluster = (changes.filter fun change => change.cluster = cluster).flatMap rows

structure Kept (state : LogTraffic) : Prop extends state.Clocked where
  phases : ∀ caller ∈ state.callers, caller.Phase
  records : Records state.ticks state.system.rowsOf (recorded state.history)
  pending : ∀ (index : Nat) (caller : LogCaller), state.callers[index]? = some caller →
    caller.rest.result? = none → ∀ tick, caller.tick = some tick →
      ∀ change ∈ recorded state.history, change.tick ≠ tick

/-- Every request that was granted is in the history, once and a change with its tick, and only calls that
fail make a request fail. -/
structure Accounted (mayFail : Prop) (state : LogTraffic) : Prop where
  granted : state.history.Perm (state.callers.flatMap LogCaller.events)
  ticked : ∀ joins cluster members tick, ⟨.change joins cluster members, tick⟩ ∈ state.history → tick.isSome
  refused : ∀ caller ∈ state.callers, ∀ error, caller.rest = .done (.error error) → mayFail

variable {mayFail : Prop} {state after : LogTraffic}

theorem kept_start {system : System} (empty : system.store.tables.log = .empty) : (start system).Kept where
  taken := nofun
  ascending := .nil
  owned := nofun
  phases := nofun
  records := by
    refine ⟨nofun, .nil, fun cluster => ?_⟩
    simp [start, System.rowsOf, empty, LogTable.empty, LogTable.entriesFor, recorded]
  pending := nofun

section Records

variable {ticks : List (Nat × Int)} {rowsOf : Id → List LogEntry} {changes : List MembershipChange}

theorem Records.add (records : Records ticks rowsOf changes) (change : MembershipChange) {index : Nat}
    (taken : (index, change.tick) ∈ ticks) (new : ∀ old ∈ changes, old.tick ≠ change.tick) :
    Records ticks (fun cluster => rowsOf cluster ++ change.rows.filter fun row => row.cluster = cluster)
      (changes ++ [change]) where
  known := by
    intro other listed
    rcases List.mem_append.mp listed with old | new
    · exact records.known other old
    · exact ⟨index, List.mem_singleton.mp new ▸ taken⟩
  distinct := by
    rw [List.map_append, List.nodup_append]
    refine ⟨records.distinct, List.nodup_singleton _, ?_⟩
    intro tick old tick' listed
    obtain ⟨other, among, rfl⟩ := List.mem_map.mp old
    exact List.mem_singleton.mp listed ▸ new other among
  rows := by
    intro cluster
    rw [records.rows, rows_in, List.filter_append, List.flatMap_append]
    by_cases same : change.cluster = cluster <;> simp [same]

theorem Records.without (records : Records ticks rowsOf changes) (request : LogRequest) :
    Records ticks (fun cluster => (rowsOf cluster).filter fun row => !request.deletes cluster row.entity)
      (changes.map (without request)) where
  known := by
    intro change listed
    obtain ⟨old, among, rfl⟩ := List.mem_map.mp listed
    exact records.known old among
  distinct := by
    rw [List.map_map]
    exact records.distinct
  rows := by
    intro cluster
    rw [records.rows, rows_without]

theorem Records.ticked (records : Records ticks rowsOf changes) (taken : List (Nat × Int)) :
    Records (ticks ++ taken) rowsOf changes where
  known := fun change listed => (records.known change listed).imp fun _ among => List.mem_append_left _ among
  distinct := records.distinct
  rows := records.rows

end Records

theorem Clocked.begin (clocked : state.Clocked) (request : LogRequest) :
    Clocked { state with callers := state.callers ++ [.start request] } where
  taken := by
    intro index tick found
    obtain ⟨bound, fits⟩ := clocked.taken index tick found
    exact ⟨by simp only [List.length_append]; omega, fits⟩
  ascending := clocked.ascending
  owned := by
    intro index caller found tick
    rw [List.getElem?_append] at found
    split at found
    · exact clocked.owned index caller found tick
    · -- The new caller is past every index that has a tick.
      rename_i late
      have new : caller = .start request := by
        cases place : index - state.callers.length with
        | zero => simpa [place] using found.symm
        | succ n => simp [place] at found
      subst new
      refine iff_of_false nofun fun taken => ?_
      exact late (clocked.taken index tick taken).1

theorem Clocked.tick_inj (clocked : state.Clocked) {index other : Nat} {tick : Int}
    (taken : (index, tick) ∈ state.ticks) (taken' : (other, tick) ∈ state.ticks) : index = other := by
  have distinct : (state.ticks.map Prod.snd).Nodup :=
    List.pairwise_map.mpr (clocked.ascending.imp Int.ne_of_lt)
  exact congrArg Prod.fst (List.inj_on_of_nodup_map distinct taken taken' rfl)

theorem getElem?_set_cases {callers : List LogCaller} {index other : Nat} {new caller : LogCaller}
    (found : (callers.set index new)[other]? = some caller) :
    index = other ∧ caller = new ∨ index ≠ other ∧ callers[other]? = some caller := by
  rw [List.getElem?_set] at found
  split at found
  · rename_i same
    split at found
    · exact .inl ⟨same, (Option.some.inj found).symm⟩
    · cases found
  · rename_i apart
    exact .inr ⟨apart, found⟩

variable {index : Nat} {caller : LogCaller} {rest : Program (Except LinkError Nat)} {system : System}

/-- A call that takes no tick. -/
theorem Clocked.stay (clocked : state.Clocked) (found : state.callers[index]? = some caller)
    (lastTick : system.lastTick = state.system.lastTick) : (state.went index caller none rest system).Clocked where
  taken := by
    simp only [went, Option.toList_none, List.map_nil, List.append_nil, List.length_set, lastTick]
    exact clocked.taken
  ascending := by
    simpa [went] using clocked.ascending
  owned := by
    intro other other' among tick
    simp only [went, Option.toList_none, List.map_nil, List.append_nil]
    rcases getElem?_set_cases among with ⟨rfl, rfl⟩ | ⟨_, old⟩
    · exact clocked.owned index caller found tick
    · exact clocked.owned other other' old tick

theorem Clocked.tick {tick : Int} (clocked : state.Clocked) (found : state.callers[index]? = some caller)
    (idle : caller.tick = none) (later : state.system.lastTick < tick) (start : 1 ≤ tick)
    (lastTick : system.lastTick = tick) : (state.went index caller (some tick) rest system).Clocked where
  taken := by
    intro other taken among
    simp only [went, Option.toList_some, List.map_cons, List.map_nil, List.mem_append, List.mem_singleton,
      Prod.mk.injEq, List.length_set, lastTick] at among ⊢
    rcases among with old | ⟨rfl, rfl⟩
    · have old := clocked.taken other taken old
      omega
    · exact ⟨(List.getElem?_eq_some_iff.mp found).1, start, Int.le_refl _⟩
  ascending := by
    simp only [went, Option.toList_some, List.map_cons, List.map_nil]
    refine List.pairwise_append.mpr ⟨clocked.ascending, List.pairwise_singleton _ _, ?_⟩
    intro old among new listed
    have bound := (clocked.taken old.1 old.2 among).2.2
    rw [List.mem_singleton.mp listed]
    exact Int.lt_of_le_of_lt bound later
  owned := by
    intro other other' among taken
    simp only [went, Option.toList_some, List.map_cons, List.map_nil, List.mem_append, List.mem_singleton,
      Prod.mk.injEq]
    rcases getElem?_set_cases among with ⟨rfl, rfl⟩ | ⟨apart, old⟩
    · have none := clocked.owned index caller found taken
      simp only [idle] at none
      simp [← none, eq_comm]
    · rw [clocked.owned other other' old taken]
      simp [Ne.symm apart]

theorem Kept.begin (kept : state.Kept) (request : LogRequest) :
    Kept { state with callers := state.callers ++ [.start request] } where
  toClocked := kept.toClocked.begin request
  phases := by
    intro caller listed
    rcases List.mem_append.mp listed with old | new
    · exact kept.phases caller old
    · exact List.mem_singleton.mp new ▸ .fresh request
  records := kept.records
  pending := by
    intro index caller found waits tick own
    rw [List.getElem?_append] at found
    split at found
    · exact kept.pending index caller found waits tick own
    · rw [List.getElem?_singleton] at found
      split at found
      · obtain rfl := Option.some.inj found
        cases own
      · cases found

/-- What a call of one caller keeps, by what becomes of the changes on record. -/
theorem Kept.went {taken : Option Int} {changes : List MembershipChange} (kept : state.Kept)
    (found : state.callers[index]? = some caller)
    (clocked : (state.went index caller taken rest system).Clocked)
    (phase : LogCaller.Phase ⟨caller.request, taken.or caller.tick, rest⟩)
    (history : recorded (state.went index caller taken rest system).history = changes)
    (records : Records (state.went index caller taken rest system).ticks system.rowsOf changes)
    (old : ∀ change ∈ changes, (∃ old ∈ recorded state.history, change.tick = old.tick) ∨
      taken.or caller.tick = some change.tick)
    (own : rest.result? = none → ∀ tick, taken.or caller.tick = some tick →
      ∀ change ∈ changes, change.tick ≠ tick) : (state.went index caller taken rest system).Kept where
  toClocked := clocked
  phases := by
    intro other listed
    rcases List.mem_or_eq_of_mem_set listed with old | rfl
    · exact kept.phases other old
    · exact phase
  records := history ▸ records
  pending := by
    rw [history]
    intro other other' among waits tick mine change listed
    rcases getElem?_set_cases among with ⟨rfl, rfl⟩ | ⟨apart, before⟩
    · exact own waits tick mine change listed
    · rintro rfl
      rcases old change listed with ⟨earlier, listed', same⟩ | his
      · exact kept.pending other other' before waits _ mine earlier listed' same.symm
      · -- The tick would be taken by two callers.
        have bound := (List.getElem?_eq_some_iff.mp found).1
        have first := (clocked.owned index ⟨caller.request, taken.or caller.tick, rest⟩
          (by simp [LogTraffic.went, bound]) change.tick).mp his
        exact apart (clocked.tick_inj first ((clocked.owned other other' among change.tick).mp mine))

theorem record_run (cluster : Id) (members : Members) (stamp : Int) :
    members.entities = [] ∧ (MembershipLog.record cluster members stamp).run = .done (.ok 0) ∨
      (MembershipLog.record cluster members stamp).run.result? = none := by
  unfold MembershipLog.record
  split
  · rename_i none
    exact .inl ⟨List.map_eq_nil_iff.mp none, rfl⟩
  · exact .inr rfl

theorem record_none (changes : List MembershipChange) (request : LogRequest) :
    record changes ⟨request, none⟩ = changes.map (without request) := by
  cases request <;> rfl

theorem Kept.of_does {taken : Option Int} (kept : state.Kept) (found : state.callers[index]? = some caller)
    (does : state.system.Does mayFail caller taken rest system) :
    (state.went index caller taken rest system).Kept := by
  have still : ∀ change ∈ recorded state.history, ∃ old ∈ recorded state.history, change.tick = old.tick :=
    fun change listed => ⟨change, listed, rfl⟩
  cases does with
  | tick joins cluster members tick later start lastTick rows =>
      have clocked : ∀ rest, Clocked (state.went index _ (some tick) rest system) :=
        fun _ => kept.toClocked.tick found rfl later start lastTick
      have new : ∀ old ∈ recorded state.history, old.tick ≠ tick := by
        intro old listed
        obtain ⟨owner, taken⟩ := kept.records.known old listed
        have bound := (kept.taken owner old.tick taken).2.2
        omega
      have records := kept.records.ticked [(index, tick)]
      rw [← funext rows] at records
      rcases record_run cluster members (if joins then tick else -tick) with ⟨empty, ended⟩ | waits
      · -- Without members the call is done once it has its tick.
        rw [ended]
        have added := records.add ⟨cluster, joins, tick, members.entities⟩
          (List.mem_append_right _ (List.mem_singleton_self _)) new
        simp only [MembershipChange.rows, empty, List.map_nil, List.filter_nil, List.append_nil] at added
        refine kept.went found (clocked _) (.done _ _ _) ((recorded_append _ _).trans ?_) added ?_ (by rintro ⟨⟩)
        · rw [← empty]
          rfl
        · intro change listed
          rcases List.mem_append.mp listed with old | own
          · exact .inl (still change old)
          · exact .inr (List.mem_singleton.mp own ▸ rfl)
      · refine kept.went found (clocked _) (.ticked joins cluster members tick) ?_ records
          (fun change listed => .inl (still change listed)) ?_
        · exact congrArg recorded ((congrArg _ (LogCaller.events_of_waiting waits)).trans (List.append_nil _))
        · rintro _ _ same
          exact Option.some.inj same ▸ new
  | append joins cluster members tick count lastTick rows waits =>
      have taken := (kept.owned index _ found tick).mp rfl
      have new := kept.pending index _ found waits tick rfl
      have added := (kept.records.ticked []).add ⟨cluster, joins, tick, members.entities⟩
        (List.mem_append_left _ taken) new
      rw [← funext rows] at added
      refine kept.went found (kept.toClocked.stay found lastTick) (.done _ _ _) (recorded_append _ _) added ?_
        (by rintro ⟨⟩)
      intro change listed
      rcases List.mem_append.mp listed with old | own
      · exact .inl (still change old)
      · exact .inr (List.mem_singleton.mp own ▸ rfl)
  | delete request count _ lastTick rows =>
      have left := (kept.records.ticked []).without request
      rw [← funext rows] at left
      refine kept.went found (kept.toClocked.stay found lastTick) (.done _ _ _)
        ((recorded_append _ _).trans (record_none _ _)) left ?_ (by rintro ⟨⟩)
      intro change listed
      obtain ⟨old, among, rfl⟩ := List.mem_map.mp listed
      exact .inl ⟨old, among, rfl⟩
  | fail caller error _ lastTick rows =>
      have records := kept.records.ticked []
      rw [← funext rows] at records
      exact kept.went found (kept.toClocked.stay found lastTick) (.done _ _ _)
        (congrArg recorded (List.append_nil _)) records (fun change listed => .inl (still change listed))
        (by rintro ⟨⟩)

theorem Kept.step (kept : state.Kept) (step : Step mayFail state after) : after.Kept := by
  cases step with
  | begin request => exact kept.begin request
  | call found asks answered =>
      exact kept.of_does found (System.does_of_phase (kept.phases _ (List.mem_of_getElem? found)) asks answered)

/-- One element is exchanged for another where the first had no items. -/
theorem flatMap_set_perm {α β : Type} {f : α → List β} {elements : List α} {index : Nat} {old new : α}
    (found : elements[index]? = some old) (none : f old = []) :
    (elements.flatMap f ++ f new).Perm ((elements.set index new).flatMap f) := by
  obtain ⟨bound, rfl⟩ := List.getElem?_eq_some_iff.mp found
  have before := (List.getElem_cons_eraseIdx_perm bound).flatMap_right f
  have after := (List.set_perm_cons_eraseIdx bound new).flatMap_right f
  rw [List.flatMap_cons, none, List.nil_append] at before
  rw [List.flatMap_cons] at after
  exact (before.symm.append_right _).trans (List.perm_append_comm.trans after.symm)

theorem Accounted.begin (accounted : state.Accounted mayFail) (request : LogRequest) :
    Accounted mayFail { state with callers := state.callers ++ [.start request] } where
  granted := by
    simpa [LogCaller.events_of_waiting (LogCaller.start_waits request)] using accounted.granted
  ticked := accounted.ticked
  refused := by
    intro caller listed error failed
    rcases List.mem_append.mp listed with old | new
    · exact accounted.refused caller old error failed
    · have waits := LogCaller.start_waits request
      rw [← List.mem_singleton.mp new, failed] at waits
      cases waits

theorem Accounted.went {taken : Option Int} (accounted : state.Accounted mayFail)
    (found : state.callers[index]? = some caller) (waits : caller.rest.result? = none)
    (granted : ∀ joins cluster members, caller.request = .change joins cluster members →
      ∀ count, rest = .done (.ok count) → (taken.or caller.tick).isSome)
    (refused : ∀ error, rest = .done (.error error) → mayFail) :
    (state.went index caller taken rest system).Accounted mayFail where
  granted := (accounted.granted.append_right _).trans (flatMap_set_perm found (LogCaller.events_of_waiting waits))
  ticked := by
    intro joins cluster members tick listed
    rcases List.mem_append.mp listed with old | new
    · exact accounted.ticked joins cluster members tick old
    · simp only [LogCaller.events] at new
      split at new
      · rename_i count
        obtain ⟨same, rfl⟩ := LogEvent.mk.inj (List.mem_singleton.mp new)
        exact granted joins cluster members same.symm count rfl
      · cases new
  refused := by
    intro other listed error failed
    rcases List.mem_or_eq_of_mem_set listed with old | rfl
    · exact accounted.refused other old error failed
    · exact refused error failed

theorem Accounted.of_does {taken : Option Int} (accounted : state.Accounted mayFail)
    (found : state.callers[index]? = some caller) (waits : caller.rest.result? = none)
    (does : state.system.Does mayFail caller taken rest system) :
    (state.went index caller taken rest system).Accounted mayFail := by
  cases does with
  | tick joins cluster members tick =>
      refine accounted.went found waits (fun _ _ _ _ _ _ => rfl) fun error failed => ?_
      rcases record_run cluster members (if joins then tick else -tick) with ⟨_, ended⟩ | waits
      · cases ended.symm.trans failed
      · rw [failed] at waits
        cases waits
  | append joins cluster members tick count => exact accounted.went found waits (fun _ _ _ _ _ _ => rfl) nofun
  | delete request count apart =>
      exact accounted.went found waits (fun _ _ _ same => absurd same (apart _ _ _)) nofun
  | fail caller error allowed => exact accounted.went found waits nofun fun _ _ => allowed

theorem kept_of_reached {start : System} (empty : start.store.tables.log = .empty)
    (reached : Relation.ReflTransGen (Step mayFail) (.start start) state) : state.Kept := by
  induction reached with
  | refl => exact kept_start empty
  | tail _ step ih => exact ih.step step

theorem accounted_of_reached {start : System} (empty : start.store.tables.log = .empty)
    (reached : Relation.ReflTransGen (Step mayFail) (.start start) state) : state.Accounted mayFail := by
  induction reached with
  | refl => exact ⟨.nil, nofun, nofun⟩
  | tail before step ih =>
      cases step with
      | begin request => exact ih.begin request
      | call found asks answered =>
          have phase := (kept_of_reached empty before).phases _ (List.mem_of_getElem? found)
          exact ih.of_does found (congrArg Program.result? asks) (System.does_of_phase phase asks answered)

theorem elapses_of_reached (reached : Relation.ReflTransGen (Step mayFail) state after) :
    state.system.Elapses after.system := by
  induction reached with
  | refl => exact System.elapses_of_eq rfl rfl
  | tail _ step ih =>
      cases step with
      | begin => exact ih
      | call _ _ answered => exact ih.trans (System.elapses_of_answers answered)

theorem history_of_reached (reached : Relation.ReflTransGen (Step mayFail) state after) :
    ∃ extra, after.history = state.history ++ extra := by
  induction reached with
  | refl => exact ⟨[], (List.append_nil _).symm⟩
  | tail _ step ih =>
      obtain ⟨extra, same⟩ := ih
      cases step with
      | begin => exact ⟨extra, same⟩
      | call => exact ⟨_, (congrArg (· ++ _) same).trans (List.append_assoc _ _ _)⟩

theorem Kept.timed (kept : state.Kept) (bound : state.system.lastTick ≤ Membership.latest) :
    Timed (recorded state.history) where
  distinct := kept.records.distinct
  fits := by
    intro change listed
    obtain ⟨index, taken⟩ := kept.records.known change listed
    have fits := kept.taken index change.tick taken
    omega

theorem Kept.membersAt (kept : state.Kept) (bound : state.system.lastTick ≤ Membership.latest) (cluster : Id)
    (asOf : Int) : Membership.fold (state.system.rowsOf cluster) asOf =
      .ofEntities (applied (upTo (recorded state.history) cluster asOf)).toList := by
  have timed := kept.timed bound
  have own : Timed ((recorded state.history).filter fun change => change.cluster = cluster) :=
    ⟨timed.distinct.sublist (List.filter_sublist.map _),
      fun change listed => timed.fits change (List.mem_of_mem_filter listed)⟩
  rw [kept.records.rows, Membership.fold_rows own, List.filter_filter, upTo]
  simp only [Bool.and_comm]

theorem Kept.upTo_latest (kept : state.Kept) (bound : state.system.lastTick ≤ Membership.latest) (cluster : Id) :
    upTo (recorded state.history) cluster Membership.latest =
      (recorded state.history).filter fun change => change.cluster = cluster := by
  refine List.filter_congr fun change listed => ?_
  simp [((kept.timed bound).fits change listed).2]

theorem mem_applied_later {history extra : List LogEvent} {cluster : Id} {entity : EntityKey} {asOf : Int}
    (spares : ∀ event ∈ extra, event.Spares cluster entity asOf) :
    entity ∈ applied (upTo (recorded (history ++ extra)) cluster asOf) ↔
      entity ∈ applied (upTo (recorded history) cluster asOf) := by
  induction extra generalizing history with
  | nil => rw [List.append_nil]
  | cons event extra ih =>
      rw [← List.singleton_append, ← List.append_assoc, ih fun other listed => spares other (.tail _ listed),
        recorded_append, mem_applied_record (spares event (.head _))]

/-- Every request comes to its end, and one that was granted is in the history, a change with its tick.
Whatever the wall clock shows, ticks increase as they are taken, and the membership at an instant is what
the changes up to it made, in the order of their ticks and without the rows that were deleted since. What
is done later keeps an entity where it was then, if it is a change with a later tick, of another cluster or
a deletion of others. -/
theorem membership_rebuilt {start : System} (empty : start.store.tables.log = .empty)
    (fresh : start.lastTick = 0) (reached : Relation.ReflTransGen (Step mayFail) (.start start) state)
    (readings : state.system.readings ≤ start.readings + 10 ^ 18) :
    (state.Accounted mayFail ∧
      ∀ caller ∈ state.callers, (caller.rest.run System.answer? state.system).1.result?.isSome) ∧
    (state.Clocked ∧ ((recorded state.history).map MembershipChange.tick).Nodup) ∧
    (∀ cluster instant, state.version? cluster instant = some (.ok
      (.ofEntities (applied (upTo (recorded state.history) cluster instant.micros)).toList))) ∧
    (∀ cluster, state.latest? cluster = some (.ok
      (.ofEntities (applied ((recorded state.history).filter fun change => change.cluster = cluster)).toList))) ∧
    ∀ later, Relation.ReflTransGen (Step mayFail) state later → later.system.readings ≤ start.readings + 10 ^ 18 →
      ∃ extra, later.history = state.history ++ extra ∧ ∀ cluster entity instant,
        (∀ event ∈ extra, event.Spares cluster entity instant.micros) →
        ∃ members members', state.version? cluster instant = some (.ok members) ∧
          later.version? cluster instant = some (.ok members') ∧ (members'.has entity ↔ members.has entity) := by
  have fits : ∀ {state : LogTraffic}, Relation.ReflTransGen (Step mayFail) (.start start) state →
      state.system.readings ≤ start.readings + 10 ^ 18 → state.system.lastTick ≤ Membership.latest := by
    intro state reached readings
    have elapsed := (elapses_of_reached reached).lastTick
    simp only [LogTraffic.start, fresh, Membership.latest] at elapsed ⊢
    omega
  have version : ∀ {state : LogTraffic}, Relation.ReflTransGen (Step mayFail) (.start start) state →
      state.system.readings ≤ start.readings + 10 ^ 18 → ∀ cluster instant, state.version? cluster instant =
        some (.ok (.ofEntities (applied (upTo (recorded state.history) cluster instant.micros)).toList)) :=
    fun reached readings cluster instant => congrArg (fun members => some (Except.ok members))
      ((kept_of_reached empty reached).membersAt (fits reached readings) cluster instant.micros)
  have kept := kept_of_reached empty reached
  have bound := fits reached readings
  have ends := fun caller listed => (kept.phases caller listed).ends state.system
  refine ⟨⟨accounted_of_reached empty reached, ends⟩, ⟨kept.toClocked, kept.records.distinct⟩,
    version reached readings, ?_, ?_⟩
  · intro cluster
    rw [← kept.upTo_latest bound, ← kept.membersAt bound]
    rfl
  · intro later goes readings'
    obtain ⟨extra, same⟩ := history_of_reached goes
    refine ⟨extra, same, fun cluster entity instant spares => ⟨_, _, version reached readings cluster instant,
      version (reached.trans goes) readings' cluster instant, ?_⟩⟩
    rw [Members.has_ofEntities, Members.has_ofEntities, Std.ExtTreeSet.mem_toList, Std.ExtTreeSet.mem_toList, same,
      mem_applied_later spares]

end LogTraffic

inductive LogMove where
  | begin (request : LogRequest)
  | call (index : Nat)

namespace LogTraffic

variable {state after : LogTraffic}

def move? (state : LogTraffic) : LogMove → Option LogTraffic
  | .begin request => some { state with callers := state.callers ++ [.start request] }
  | .call index =>
      match state.callers[index]? with
      | some ⟨request, tick, .ask call next⟩ =>
          (state.system.answer? call).map fun (answer, after) =>
            state.went index ⟨request, tick, .ask call next⟩ (call.ticked answer) (next answer) after
      | _ => none

theorem step_of_move {move : LogMove} (moved : state.move? move = some after) : Step True state after := by
  cases move with
  | begin request =>
      obtain rfl := Option.some.inj moved
      exact .begin state request
  | call index =>
      simp only [move?] at moved
      split at moved
      · rename_i found
        obtain ⟨⟨answer, system⟩, answered, rfl⟩ := Option.map_eq_some_iff.mp moved
        exact .call found rfl ⟨System.mayAnswer_of_answer? answered, .inr trivial⟩
      · cases moved

end LogTraffic

namespace Sample

def crossing : List LogMove :=
  [.begin (.change true set (.single left)), .begin (.change false set (.single left)),
    .call 0, .call 1, .call 1, .call 0]

end Sample

namespace LogTraffic

open MembershipChange

theorem membership_rebuilt_crossing :
    ∃ state, Relation.ReflTransGen (Step True) (.start Sample.start) state ∧
      Sample.start.store.tables.log = .empty ∧ Sample.start.lastTick = 0 ∧
      state.system.readings ≤ Sample.start.readings + 10 ^ 18 ∧
      state.history.map LogEvent.tick = [some (Sample.noon.micros + 1), some Sample.noon.micros] ∧
      state.history.Perm (state.callers.flatMap LogCaller.events) ∧
      state.version? Sample.set Sample.noon = some (.ok
        (.ofEntities (applied (upTo (recorded state.history) Sample.set Sample.noon.micros)).toList)) := by
  have ran : (Sample.crossing.foldlM move? (.start Sample.start)).any fun state =>
      state.history.map LogEvent.tick = [some (Sample.noon.micros + 1), some Sample.noon.micros] &&
        decide (state.system.readings ≤ Sample.start.readings + 10 ^ 18) := by decide +kernel
  obtain ⟨state, ended, holds⟩ := (Option.any_eq_true _ _).mp ran
  obtain ⟨ticks, readings⟩ := Bool.and_eq_true_iff.mp holds
  have reached := steps_of_moves ended fun _ _ _ => step_of_move
  obtain ⟨⟨accounted, _⟩, _, version, _⟩ := membership_rebuilt rfl rfl reached (of_decide_eq_true readings)
  exact ⟨state, reached, rfl, rfl, of_decide_eq_true readings, of_decide_eq_true ticks, accounted.granted,
    version Sample.set Sample.noon⟩

end LogTraffic

end RecordLinkage
