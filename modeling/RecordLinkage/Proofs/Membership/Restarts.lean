import RecordLinkage.Proofs.Membership.History

/-! Membership logs one after the other over one table. A log starts with a clock of its own, which knows
nothing of the rows that are there, so that only the wall clock orders the changes of one log and those of
the next. For each member the change of the latest tick decides, and of those a departure. -/

namespace RecordLinkage

structure LogSuccession where
  system : System
  past : List (List MembershipChange)
  current : List MembershipChange

namespace LogSuccession

def start (system : System) : LogSuccession := ⟨system, [], []⟩

def logs (state : LogSuccession) : List (List MembershipChange) := state.past ++ [state.current]

def changes (state : LogSuccession) : List MembershipChange := state.logs.flatten

def naming (state : LogSuccession) (cluster : Id) (entity : EntityKey) : List MembershipChange :=
  state.changes.filter fun change => change.cluster = cluster && decide (entity ∈ change.members)

def latest? (state : LogSuccession) (cluster : Id) : Option (Except LinkError Members) :=
  ((MembershipLog.latest cluster).run.run System.answer? state.system).1.result?

inductive Step : LogSuccession → LogSuccession → Prop
  | change {state : LogSuccession} {joins : Bool} {cluster : Id} {members : Members} {count : Nat}
      {after : System} :
      Program.Runs (System.Answers True) (LogRequest.change joins cluster members).action.run state.system
        (.ok count) after →
      Step state { state with
        system := after
        current := state.current ++
          [⟨cluster, joins, Membership.tick state.system.lastTick state.system.now, members.entities⟩] }
  | refused {state : LogSuccession} {joins : Bool} {cluster : Id} {members : Members} {error : LinkError}
      {after : System} :
      Program.Runs (System.Answers True) (LogRequest.change joins cluster members).action.run state.system
        (.error error) after →
      Step state { state with system := after }
  | restart {state : LogSuccession} {store : Store} : store.tables.log = state.system.store.tables.log →
      Step state ⟨state.system.restarted store, state.past ++ [state.current], []⟩

end LogSuccession

namespace MembershipChange

structure Decides (changes : List MembershipChange) (change : MembershipChange) : Prop where
  listed : change ∈ changes
  outranks : ∀ other ∈ changes,
    other.tick < change.tick ∨ other.tick = change.tick ∧ (change.joins → other.joins)

variable {changes : List MembershipChange} {change other : MembershipChange} {entity : EntityKey}

theorem Decides.joins_eq (decides : Decides changes change) (decides' : Decides changes other) :
    change.joins = other.joins := by
  have forth := decides.outranks other decides'.listed
  have back := decides'.outranks change decides.listed
  have tied : (change.joins → other.joins) ∧ (other.joins → change.joins) := by
    rcases forth with less | ⟨same, forth⟩ <;> rcases back with less' | ⟨same', back⟩
    · omega
    · omega
    · omega
    · exact ⟨forth, back⟩
  exact Bool.eq_iff_iff.mpr ⟨tied.1, tied.2⟩

theorem exists_decides {changes : List MembershipChange} (filled : changes ≠ []) :
    ∃ change, Decides changes change := by
  induction changes with
  | nil => exact absurd rfl filled
  | cons first rest ih =>
      by_cases alone : rest = []
      · subst alone
        refine ⟨first, List.mem_singleton_self _, fun other listed => ?_⟩
        exact .inr ⟨congrArg tick (List.mem_singleton.mp listed), List.mem_singleton.mp listed ▸ id⟩
      · obtain ⟨top, decides⟩ := ih alone
        by_cases outranked : first.tick < top.tick ∨ first.tick = top.tick ∧ (top.joins → first.joins)
        · refine ⟨top, .tail _ decides.listed, fun other listed => ?_⟩
          rcases List.mem_cons.mp listed with rfl | old
          · exact outranked
          · exact decides.outranks other old
        · refine ⟨first, .head _, fun other listed => ?_⟩
          rcases List.mem_cons.mp listed with rfl | old
          · exact .inr ⟨rfl, id⟩
          · -- The first is after what was on top, or a departure of its tick.
            have order := decides.outranks other old
            have past : top.tick ≤ first.tick ∧ (first.tick = top.tick → first.joins = false) := by
              simp only [not_or, not_and, Classical.not_imp] at outranked
              exact ⟨by omega, fun same => by simpa using (outranked.2 same).2⟩
            by_cases less : other.tick < first.tick
            · exact .inl less
            · exact .inr ⟨by omega, fun joins => by simp [past.2 (by omega)] at joins⟩

theorem decides_of_ascending (ascending : changes.Pairwise fun a b => a.tick < b.tick)
    (last : changes.getLast? = some change) : Decides changes change where
  listed := List.mem_of_getLast? last
  outranks := by
    obtain ⟨earlier, rfl⟩ := List.getLast?_eq_some_iff.mp last
    intro other listed
    rcases List.mem_append.mp listed with old | own
    · exact .inl ((List.pairwise_append.mp ascending).2.2 other old change (List.mem_singleton_self _))
    · rw [List.mem_singleton.mp own]
      exact .inr ⟨rfl, id⟩

end MembershipChange

namespace Membership

open MembershipChange

variable {changes : List MembershipChange} {entity : EntityKey}

/-- Without any order of the ticks: a change that decides has its effect, and there is one if any names the
entity. -/
theorem has_fold_iff (fits : ∀ change ∈ changes, 1 ≤ change.tick ∧ change.tick ≤ latest) :
    (fold (changes.flatMap rows) latest).has entity ↔
      ∃ change, Decides (changes.filter fun change => entity ∈ change.members) change ∧ change.joins := by
  rw [has_fold]
  rcases presence_cases (changes.flatMap rows) latest entity with ⟨none, absent⟩ | ⟨row, last, present⟩
  · rw [absent]
    refine iff_of_false nofun ?_
    rintro ⟨change, decides, _⟩
    obtain ⟨listed, about⟩ := List.mem_filter.mp decides.listed
    obtain ⟨row, old, same, _⟩ := row_of_change listed (of_decide_eq_true about) (fits change listed)
    exact none row old same (micros_le_latest row)
  · obtain ⟨change, listed, about, _, stamp⟩ := mem_rows.mp last.listed
    obtain ⟨micros, departs⟩ := stamp_decides (fits change listed).1 (fits change listed).2 stamp
    have decides : Decides (changes.filter fun change => entity ∈ change.members) change := by
      refine ⟨List.mem_filter.mpr ⟨listed, decide_eq_true (last.about ▸ about)⟩, fun other found => ?_⟩
      obtain ⟨listed', about'⟩ := List.mem_filter.mp found
      obtain ⟨row', old, same, micros', departs'⟩ :=
        row_of_change listed' (of_decide_eq_true about') (fits other listed')
      have order := last.last row' old same (micros_le_latest row')
      rw [LogEntry.before_iff, micros, micros', departs, departs'] at order
      refine order.imp_right (And.imp_right fun tied joins => ?_)
      cases stays : other.joins <;> simp_all
    rw [present, departs, Bool.not_not, Option.some.injEq]
    exact ⟨fun joins => ⟨change, decides, joins⟩,
      fun ⟨_, decides', joins⟩ => (decides.joins_eq decides').trans joins⟩

end Membership

namespace System

variable {system after : System}

theorem runs_record {cluster : Id} {members : Members} {stamp : Int} {result : Except LinkError Nat}
    (run : Program.Runs (Answers True) (MembershipLog.record cluster members stamp).run system result after) :
    after.lastTick = system.lastTick ∧ ∀ other, after.rowsOf other = system.rowsOf other ++
      if result.isOk then (Membership.entries cluster members (.ofInt stamp)).filter fun row => row.cluster = other
      else [] := by
  unfold MembershipLog.record at run
  split at run
  · rename_i empty
    cases run with
    | done => simp [empty]
  · cases run with
    | @ask _ _ answer _ _ _ _ answered run =>
        obtain ⟨lastTick, rows⟩ := Answers.wrote answered
        cases answer with
        | ok written =>
            cases run with
            | done => exact ⟨lastTick, fun other => (rows other).trans (LogTable.entriesFor_append _ _ other)⟩
        | error error =>
            cases run with
            | done => exact ⟨lastTick, fun other => (rows.2 other).trans (List.append_nil _).symm⟩

theorem runs_change {joins : Bool} {cluster : Id} {members : Members} {result : Except LinkError Nat}
    (run : Program.Runs (Answers True) (LogRequest.change joins cluster members).action.run system result after) :
    after.lastTick = Membership.tick system.lastTick system.now ∧ ∀ other, after.rowsOf other =
      system.rowsOf other ++ if result.isOk then (MembershipChange.rows ⟨cluster, joins,
        Membership.tick system.lastTick system.now, members.entities⟩).filter fun row => row.cluster = other
      else [] := by
  have first : (LogRequest.change joins cluster members).action.run = .ask .tick fun tick =>
      (MembershipLog.record cluster members (if joins then tick else -tick)).run := by
    cases joins <;> rfl
  rw [first] at run
  cases run with
  | ask answered run =>
      obtain ⟨rfl, rfl⟩ := Prod.mk.injEq .. ▸ Option.some.inj answered.1
      exact runs_record run

end System

namespace LogSuccession

open MembershipChange

structure Kept (start : System) (state : LogSuccession) : Prop where
  rows : ∀ cluster, state.system.rowsOf cluster =
    (state.changes.filter fun change => change.cluster = cluster).flatMap rows
  ascending : ∀ log ∈ state.logs, log.Pairwise fun a b => a.tick < b.tick
  behind : ∀ change ∈ state.current, change.tick ≤ state.system.lastTick
  elapsed : start.Elapses state.system
  fits : ∀ change ∈ state.changes, 1 ≤ change.tick ∧
    change.tick ≤ Membership.latest - 10 ^ 18 + (state.system.readings - start.readings : Nat)

variable {start after : System} {state next : LogSuccession}

theorem kept_start (empty : start.store.tables.log = .empty) : Kept start (.start start) where
  rows := by
    intro cluster
    simp [LogSuccession.start, System.rowsOf, empty, LogTable.empty, LogTable.entriesFor, changes, logs]
  ascending := by simp [LogSuccession.start, logs]
  behind := nofun
  elapsed := System.elapses_of_eq rfl rfl
  fits := by simp [LogSuccession.start, changes, logs]

theorem Kept.change (kept : Kept start state) (fresh : start.lastTick = 0) (elapses : state.system.Elapses after)
    {change : MembershipChange} (later : state.system.lastTick < change.tick) (positive : 1 ≤ change.tick)
    (lastTick : after.lastTick = change.tick)
    (rows : ∀ cluster, after.rowsOf cluster =
      state.system.rowsOf cluster ++ change.rows.filter fun row => row.cluster = cluster) :
    Kept start { state with system := after, current := state.current ++ [change] } := by
  have added : changes { state with system := after, current := state.current ++ [change] } =
      state.changes ++ [change] := by
    simp [changes, logs]
  have readings := elapses.readings
  have elapsed := kept.elapsed.trans elapses
  constructor
  case rows =>
    intro cluster
    rw [added, rows, kept.rows, rows_in, List.filter_append, List.flatMap_append]
    by_cases same : change.cluster = cluster <;> simp [same]
  case ascending =>
    intro log listed
    rcases List.mem_append.mp listed with old | own
    · exact kept.ascending log (List.mem_append_left _ old)
    · rw [List.mem_singleton.mp own]
      have before := kept.ascending state.current (List.mem_append_right _ (List.mem_singleton_self _))
      refine List.pairwise_append.mpr ⟨before, List.pairwise_singleton _ _, fun old among new newest => ?_⟩
      rw [List.mem_singleton.mp newest]
      exact Int.lt_of_le_of_lt (kept.behind old among) later
  case behind =>
    intro other listed
    rcases List.mem_append.mp listed with old | own
    · exact lastTick ▸ Int.le_of_lt (Int.lt_of_le_of_lt (kept.behind other old) later)
    · rw [List.mem_singleton.mp own]
      exact Int.le_of_eq lastTick.symm
  case elapsed => exact elapsed
  case fits =>
    rw [added]
    intro other listed
    rcases List.mem_append.mp listed with old | own
    · have fits := kept.fits other old
      exact ⟨fits.1, by dsimp only; omega⟩
    · rw [List.mem_singleton.mp own]
      have bound := elapsed.lastTick
      simp only [fresh, lastTick, Membership.latest] at bound ⊢
      exact ⟨positive, by omega⟩

theorem Kept.stay (kept : Kept start state) (elapses : state.system.Elapses next.system)
    (rows : ∀ cluster, next.system.rowsOf cluster = state.system.rowsOf cluster)
    (same : next.changes = state.changes) (logs : ∀ log ∈ next.logs, log ∈ state.logs ∨ log = [])
    (behind : ∀ change ∈ next.current, change.tick ≤ next.system.lastTick) : Kept start next where
  rows := fun cluster => (rows cluster).trans (same ▸ kept.rows cluster)
  ascending := by
    intro log listed
    rcases logs log listed with old | rfl
    · exact kept.ascending log old
    · exact .nil
  behind := behind
  elapsed := kept.elapsed.trans elapses
  fits := by
    rw [same]
    intro change listed
    have fits := kept.fits change listed
    have readings := elapses.readings
    omega

theorem elapses_restarted (system : System) (store : Store) : system.Elapses (system.restarted store) where
  readings := Nat.le_refl _
  lastTick := by
    simp only [System.restarted, System.fresh, Membership.latest]
    omega

theorem Kept.step (kept : Kept start state) (fresh : start.lastTick = 0) (step : Step state next) :
    Kept start next := by
  cases step with
  | change run =>
      obtain ⟨lastTick, rows⟩ := System.runs_change run
      exact kept.change fresh (System.elapses_of_runs run) (Membership.lt_tick _ _) (Membership.one_le_tick _ _)
        lastTick rows
  | refused run =>
      obtain ⟨lastTick, rows⟩ := System.runs_change run
      refine kept.stay (System.elapses_of_runs run) (fun other => (rows other).trans (List.append_nil _)) rfl
        (fun _ => .inl) fun change listed => ?_
      have behind := kept.behind change listed
      have later := Membership.lt_tick state.system.lastTick state.system.now
      simp only [lastTick]
      omega
  | restart same =>
      refine kept.stay (elapses_restarted _ _) (fun cluster => ?_) ?_ (fun log listed => ?_) nofun
      · exact congrArg (LogTable.entriesFor · cluster) same
      · simp [changes, logs]
      · simpa [logs, or_assoc] using listed

theorem kept_of_reached (empty : start.store.tables.log = .empty) (fresh : start.lastTick = 0)
    (reached : Relation.ReflTransGen Step (.start start) state) : Kept start state := by
  induction reached with
  | refl => exact kept_start empty
  | tail _ step ih => exact ih.step fresh step

theorem Kept.latest (kept : Kept start state) (readings : state.system.readings ≤ start.readings + 10 ^ 18)
    (cluster : Id) : ∃ members, state.latest? cluster = some (.ok members) ∧ ∀ entity,
      members.has entity ↔ ∃ change, Decides (state.naming cluster entity) change ∧ change.joins := by
  refine ⟨Membership.fold (state.system.rowsOf cluster) Membership.latest, rfl, fun entity => ?_⟩
  have fits : ∀ change ∈ state.changes.filter fun change => change.cluster = cluster,
      1 ≤ change.tick ∧ change.tick ≤ Membership.latest := by
    intro change listed
    have fits := kept.fits change (List.mem_of_mem_filter listed)
    simp only [Membership.latest] at fits ⊢
    omega
  rw [kept.rows, Membership.has_fold_iff fits, List.filter_filter, naming]
  simp only [Bool.and_comm]

/-- Over the logs one after the other, whatever the wall clock shows: the ticks of each log ascend, and the
member of a cluster is in it if the change that decides is an arrival. So the last change that named it has its
effect just if the change that decides has the same. Where the first tick of each log is after the ticks of
those before it, all ticks ascend and the last change decides. -/
theorem latest_over_logs (empty : start.store.tables.log = .empty) (fresh : start.lastTick = 0)
    (reached : Relation.ReflTransGen Step (.start start) state)
    (readings : state.system.readings ≤ start.readings + 10 ^ 18) :
    (∀ log ∈ state.logs, log.Pairwise fun a b => a.tick < b.tick) ∧
    (∀ cluster, ∃ members, state.latest? cluster = some (.ok members) ∧ ∀ entity,
      (members.has entity ↔ ∃ change, Decides (state.naming cluster entity) change ∧ change.joins) ∧
      ∀ last, (state.naming cluster entity).getLast? = some last →
        ((members.has entity ↔ last.joins) ↔
          ∃ change, Decides (state.naming cluster entity) change ∧ change.joins = last.joins)) ∧
    ((state.logs.Pairwise fun earlier later => ∀ old ∈ earlier, ∀ first ∈ later.head?, old.tick < first.tick) →
      (state.changes.Pairwise fun a b => a.tick < b.tick) ∧
      ∀ cluster entity last, (state.naming cluster entity).getLast? = some last →
        Decides (state.naming cluster entity) last) := by
  have kept := kept_of_reached empty fresh reached
  refine ⟨kept.ascending, fun cluster => ?_, fun caughtUp => ?_⟩
  · obtain ⟨members, answered, has⟩ := kept.latest readings cluster
    refine ⟨members, answered, fun entity => ⟨has entity, fun last found => ?_⟩⟩
    obtain ⟨change, decides⟩ := exists_decides (List.ne_nil_of_mem (List.mem_of_getLast? found))
    have joins : members.has entity ↔ change.joins :=
      (has entity).trans ⟨fun ⟨_, decides', joins⟩ => (decides.joins_eq decides').trans joins,
        fun joins => ⟨change, decides, joins⟩⟩
    rw [joins, ← Bool.eq_iff_iff]
    exact ⟨fun same => ⟨change, decides, same⟩,
      fun ⟨_, decides', same⟩ => (decides.joins_eq decides').trans same⟩
  · have ascending : state.changes.Pairwise fun a b => a.tick < b.tick := by
      refine List.pairwise_flatten.mpr ⟨kept.ascending, caughtUp.imp_of_mem ?_⟩
      intro earlier later _ among after old listed new newer
      -- What comes after the first tick of a log has a later tick still.
      cases later with
      | nil => cases newer
      | cons first rest =>
          have start := after old listed first rfl
          rcases List.mem_cons.mp newer with rfl | behind
          · exact start
          · exact Int.lt_trans start (List.rel_of_pairwise_cons (kept.ascending _ among) behind)
    exact ⟨ascending, fun cluster entity last found => decides_of_ascending (ascending.filter _) found⟩

end LogSuccession

inductive SuccessionMove where
  | change (joins : Bool) (cluster : Id) (members : Members)
  | restart

namespace LogSuccession

variable {state next : LogSuccession}

def move? (state : LogSuccession) : SuccessionMove → Option LogSuccession
  | .change joins cluster members =>
      let (ended, after) := (LogRequest.change joins cluster members).action.run.run System.answer? state.system
      ended.result?.map fun
        | .ok _ => { state with
            system := after
            current := state.current ++
              [⟨cluster, joins, Membership.tick state.system.lastTick state.system.now, members.entities⟩] }
        | .error _ => { state with system := after }
  | .restart => some ⟨state.system.restarted state.system.store, state.past ++ [state.current], []⟩

theorem step_of_move {move : SuccessionMove} (moved : state.move? move = some next) : Step state next := by
  cases move with
  | change joins cluster members =>
      obtain ⟨result, ended, rfl⟩ := Option.map_eq_some_iff.mp moved
      have run : Program.Runs (System.Answers True) _ state.system result _ :=
        (Program.runs_of_result ended).mono fun _ _ _ _ answered =>
          ⟨System.mayAnswer_of_answer? answered, .inr trivial⟩
      cases result with
      | ok count => exact .change run
      | error error => exact .refused run
  | restart =>
      obtain rfl := Option.some.inj moved
      exact .restart rfl

end LogSuccession

namespace Sample

def beforeNoon : Instant := ⟨noon.date, 43199, 999999000, by decide⟩

/-- The clock shows one instant while the first log makes a change, and another after that. -/
def shifting (first later : Instant) : System :=
  { start with clock := fun reading => if reading < 2 then first else later }

def leavingLater : List SuccessionMove :=
  [.change true set (.single left), .restart, .change false set (.single left), .change true set (.single right)]

end Sample

namespace LogSuccession

open MembershipChange

theorem latest_over_logs_leaving :
    ∃ state, Relation.ReflTransGen Step (.start (Sample.shifting Sample.beforeNoon Sample.noon)) state ∧
      (Sample.shifting Sample.beforeNoon Sample.noon).store.tables.log = .empty ∧
      (Sample.shifting Sample.beforeNoon Sample.noon).lastTick = 0 ∧
      state.system.readings ≤ (Sample.shifting Sample.beforeNoon Sample.noon).readings + 10 ^ 18 ∧
      state.logs = [[⟨Sample.set, true, Sample.beforeNoon.micros, [Sample.left]⟩],
        [⟨Sample.set, false, Sample.noon.micros, [Sample.left]⟩,
          ⟨Sample.set, true, Sample.noon.micros + 1, [Sample.right]⟩]] ∧
      ∃ members, state.latest? Sample.set = some (.ok members) ∧ ¬members.has Sample.left := by
  have ran : (Sample.leavingLater.foldlM move? (.start (Sample.shifting Sample.beforeNoon Sample.noon))).any
      fun state => state.logs = [[⟨Sample.set, true, Sample.beforeNoon.micros, [Sample.left]⟩],
        [⟨Sample.set, false, Sample.noon.micros, [Sample.left]⟩,
          ⟨Sample.set, true, Sample.noon.micros + 1, [Sample.right]⟩]] &&
        decide (state.system.readings ≤ Sample.start.readings + 10 ^ 18) := by decide +kernel
  obtain ⟨state, ended, holds⟩ := (Option.any_eq_true _ _).mp ran
  obtain ⟨logs, readings⟩ := Bool.and_eq_true_iff.mp holds
  have logs := of_decide_eq_true logs
  have readings := of_decide_eq_true readings
  have reached := steps_of_moves ended fun _ _ _ => step_of_move
  obtain ⟨_, latest, caughtUp⟩ := latest_over_logs rfl rfl reached readings
  obtain ⟨members, answered, has⟩ := latest Sample.set
  have last : (state.naming Sample.set Sample.left).getLast? =
      some ⟨Sample.set, false, Sample.noon.micros, [Sample.left]⟩ := by
    rw [naming, changes, logs]
    decide
  have decides := (caughtUp (by rw [logs]; decide)).2 Sample.set Sample.left _ last
  refine ⟨state, reached, rfl, rfl, readings, logs, members, answered, ?_⟩
  rw [((has Sample.left).2 _ last).mpr ⟨_, decides, rfl⟩]
  decide

/-- Over a clock that goes back, a departure after a restart is lost behind the arrival before it, and a tick is
taken twice. -/
theorem departure_lost_behind_older_tick :
    ∃ state, Relation.ReflTransGen Step (.start (Sample.shifting Sample.noon Sample.beforeNoon)) state ∧
      state.changes.map tick = [Sample.noon.micros, Sample.beforeNoon.micros, Sample.noon.micros] ∧
      (state.naming Sample.set Sample.left).getLast? =
        some ⟨Sample.set, false, Sample.beforeNoon.micros, [Sample.left]⟩ ∧
      ∃ members, state.latest? Sample.set = some (.ok members) ∧ members.has Sample.left := by
  have ran : (Sample.leavingLater.foldlM move? (.start (Sample.shifting Sample.noon Sample.beforeNoon))).any
      fun state => state.changes = [⟨Sample.set, true, Sample.noon.micros, [Sample.left]⟩,
        ⟨Sample.set, false, Sample.beforeNoon.micros, [Sample.left]⟩,
        ⟨Sample.set, true, Sample.noon.micros, [Sample.right]⟩] &&
        decide (state.system.readings ≤ Sample.start.readings + 10 ^ 18) := by decide +kernel
  obtain ⟨state, ended, holds⟩ := (Option.any_eq_true _ _).mp ran
  obtain ⟨changes, readings⟩ := Bool.and_eq_true_iff.mp holds
  have changes := of_decide_eq_true changes
  have reached := steps_of_moves ended fun _ _ _ => step_of_move
  have kept : Kept (Sample.shifting Sample.noon Sample.beforeNoon) state := kept_of_reached rfl rfl reached
  obtain ⟨members, answered, has⟩ := kept.latest (of_decide_eq_true readings) Sample.set
  have named : state.naming Sample.set Sample.left = [⟨Sample.set, true, Sample.noon.micros, [Sample.left]⟩,
      ⟨Sample.set, false, Sample.beforeNoon.micros, [Sample.left]⟩] := by
    rw [naming, changes]
    decide
  refine ⟨state, reached, by rw [changes]; rfl, by rw [named]; rfl, members, answered, (has _).mpr ?_⟩
  rw [named]
  exact ⟨_, ⟨.head _, by decide⟩, rfl⟩

end LogSuccession

end RecordLinkage
