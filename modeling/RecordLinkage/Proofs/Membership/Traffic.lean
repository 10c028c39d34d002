import Mathlib.Logic.Relation
import RecordLinkage.Proofs.Membership.Changes
import RecordLinkage.Proofs.Program.Answers

/-! Callers of one membership log whose calls mix: a change takes its tick and writes its rows in separate
calls, and others come between. Each call of a caller takes a tick, writes the rows of its change, deletes
rows or fails without an effect. -/

namespace RecordLinkage

structure LogCaller where
  request : LogRequest
  tick : Option Int
  rest : Program (Except LinkError Nat)

namespace LogCaller

def start (request : LogRequest) : LogCaller := ⟨request, none, request.action.run⟩

/-- The event of a request that is done; one that failed is none. -/
def events (caller : LogCaller) : List LogEvent :=
  match caller.rest with
  | .done (.ok _) => [⟨caller.request, caller.tick⟩]
  | _ => []

theorem events_of_waiting {caller : LogCaller} (waits : caller.rest.result? = none) : caller.events = [] := by
  obtain ⟨request, tick, rest⟩ := caller
  cases rest with
  | done value => cases waits
  | ask => rfl

theorem start_waits (request : LogRequest) : (start request).rest.result? = none := by
  cases request with
  | change joins cluster members => cases joins <;> rfl
  | deleteSet | deleteMembers => rfl

end LogCaller

def Call.ticked : (call : Call) → call.Answer → Option Int
  | .tick, taken => some taken
  | _, _ => none

/-- Any number of callers; the ticks in the order in which they were taken, each with its caller; and what
is done, in the order in which it was. -/
structure LogTraffic where
  system : System
  callers : List LogCaller
  ticks : List (Nat × Int)
  history : List LogEvent

namespace LogTraffic

def start (system : System) : LogTraffic := ⟨system, [], [], []⟩

def went (state : LogTraffic) (index : Nat) (caller : LogCaller) (taken : Option Int)
    (rest : Program (Except LinkError Nat)) (after : System) : LogTraffic :=
  let caller : LogCaller := ⟨caller.request, taken.or caller.tick, rest⟩
  ⟨after, state.callers.set index caller, state.ticks ++ taken.toList.map (index, ·),
    state.history ++ caller.events⟩

inductive Step (mayFail : Prop) : LogTraffic → LogTraffic → Prop
  | begin (state : LogTraffic) (request : LogRequest) :
      Step mayFail state { state with callers := state.callers ++ [.start request] }
  | call {state : LogTraffic} {index : Nat} {caller : LogCaller} {call : Call}
      {next : call.Answer → Program (Except LinkError Nat)} {answer : call.Answer} {after : System} :
      state.callers[index]? = some caller → caller.rest = .ask call next →
      System.Answers mayFail state.system call answer after →
      Step mayFail state (state.went index caller (call.ticked answer) (next answer) after)

def version? (state : LogTraffic) (cluster : Id) (instant : Instant) : Option (Except LinkError Members) :=
  ((MembershipLog.version cluster instant).run.run System.answer? state.system).1.result?

def latest? (state : LogTraffic) (cluster : Id) : Option (Except LinkError Members) :=
  ((MembershipLog.latest cluster).run.run System.answer? state.system).1.result?

end LogTraffic

namespace LogTable

theorem entriesFor_remove (table : LogTable) (cluster other : Id) (planned : List LogEntry) :
    (table.remove cluster planned).2.entriesFor other =
      if cluster = other then (table.entriesFor cluster).filter fun entry => !planned.contains entry
      else table.entriesFor other := by
  have replaced : ∀ rest : List LogEntry,
      entriesFor ⟨if rest.isEmpty then table.rows.erase cluster else table.rows.insert cluster rest⟩ other =
        if cluster = other then rest else table.entriesFor other := by
    intro rest
    simp only [entriesFor]
    split
    · rename_i none
      simp only [Std.ExtTreeMap.getD_erase, Std.LawfulEqOrd.compare_eq_iff_eq, List.isEmpty_iff.mp none]
    · simp only [Std.ExtTreeMap.getD_insert, Std.LawfulEqOrd.compare_eq_iff_eq]
  exact replaced _

theorem entriesFor_remove_of_plan (table : LogTable) (cluster other : Id) (gone : LogEntry → Bool) :
    (table.remove cluster ((table.entriesFor cluster).filter gone)).2.entriesFor other =
      (table.entriesFor other).filter fun entry => !(cluster = other && gone entry) := by
  rw [entriesFor_remove]
  split
  · rename_i same
    subst same
    refine List.filter_congr fun entry found => ?_
    simp [found]
  · rename_i apart
    simp [apart]

end LogTable

namespace Store

/-- A write that goes through does to the rows of a cluster what it does in memory. -/
theorem entriesFor_of_write {store after : Store} {disk : Disk} {now : Instant} {request : Write}
    {written : Written} (wrote : store.write disk now request = (.ok written, after)) (cluster : Id) :
    after.tables.log.entriesFor cluster = (store.tables.write request).2.log.entriesFor cluster := by
  rcases tables_of_write wrote with same | ⟨empty, same⟩
  · rw [same]
  · rw [same, Tables.write]
    generalize store.tables.plan request = change at empty
    cases change with
    | appendEntries entries =>
        rw [List.isEmpty_iff.mp empty]
        rfl
    | removeEntries own entries =>
        simp [Tables.apply, List.isEmpty_iff.mp empty, LogTable.entriesFor_remove]
        rintro rfl
        rfl
    | _ => rfl

end Store

namespace System

def rowsOf (system : System) (cluster : Id) : List LogEntry := system.store.tables.log.entriesFor cluster

inductive Does (mayFail : Prop) (system : System) :
    LogCaller → Option Int → Program (Except LinkError Nat) → System → Prop
  | tick (joins : Bool) (cluster : Id) (members : Members) (tick : Int) {after : System} :
      system.lastTick < tick → 1 ≤ tick → after.lastTick = tick →
      (∀ other, after.rowsOf other = system.rowsOf other) →
      Does mayFail system (.start (.change joins cluster members)) (some tick)
        (MembershipLog.record cluster members (if joins then tick else -tick)).run after
  | append (joins : Bool) (cluster : Id) (members : Members) (tick : Int) (count : Nat) {after : System}
      {rest : Program (Except LinkError Nat)} : after.lastTick = system.lastTick →
      (∀ other, after.rowsOf other = system.rowsOf other ++
        (MembershipChange.rows ⟨cluster, joins, tick, members.entities⟩).filter fun row => row.cluster = other) →
      rest.result? = none →
      Does mayFail system ⟨.change joins cluster members, some tick, rest⟩ none (.done (.ok count)) after
  | delete (request : LogRequest) (count : Nat) {after : System} :
      (∀ joins cluster members, request ≠ .change joins cluster members) → after.lastTick = system.lastTick →
      (∀ other, after.rowsOf other =
        (system.rowsOf other).filter fun row => !request.deletes other row.entity) →
      Does mayFail system (.start request) none (.done (.ok count)) after
  | fail (caller : LogCaller) (error : LinkError) {after : System} : mayFail → after.lastTick = system.lastTick →
      (∀ other, after.rowsOf other = system.rowsOf other) →
      Does mayFail system caller none (.done (.error error)) after

end System

inductive LogCaller.Phase : LogCaller → Prop
  | fresh (request : LogRequest) : Phase (.start request)
  | ticked (joins : Bool) (cluster : Id) (members : Members) (tick : Int) :
      Phase ⟨.change joins cluster members, some tick,
        (MembershipLog.record cluster members (if joins then tick else -tick)).run⟩
  | done (request : LogRequest) (tick : Option Int) (result : Except LinkError Nat) :
      Phase ⟨request, tick, .done result⟩

namespace LogCaller

theorem write_ends (write : Write) (system : System) :
    ((do return (← Action.write write).count : Action Nat).run.run System.answer? system).1.result?.isSome := by
  change (Program.run System.answer? (ExceptT.bindCont (fun written : Written => (pure written.count : Action Nat))
    (system.write write).1) (system.write write).2).1.result?.isSome
  cases (system.write write).1 <;> rfl

theorem record_ends (cluster : Id) (members : Members) (stamp : Int) (system : System) :
    ((MembershipLog.record cluster members stamp).run.run System.answer? system).1.result?.isSome := by
  unfold MembershipLog.record
  split
  · rfl
  · exact write_ends _ _

/-- A caller who is left alone comes to the end. -/
theorem Phase.ends {caller : LogCaller} (phase : caller.Phase) (system : System) :
    (caller.rest.run System.answer? system).1.result?.isSome := by
  cases phase with
  | done => rfl
  | ticked => exact record_ends _ _ _ _
  | fresh request =>
      cases request with
      | change joins cluster members => cases joins <;> exact record_ends _ _ _ _
      | deleteSet | deleteMembers => exact write_ends _ _

end LogCaller

namespace System

variable {mayFail : Prop} {system after : System}

/-- A write that goes through answers and changes the rows as in memory; one that does not changes none. -/
theorem Answers.wrote {request : Write} {answer : Except LinkError Written}
    (answered : Answers mayFail system (.write request) answer after) :
    after.lastTick = system.lastTick ∧ match answer with
      | .ok _ => ∀ cluster, after.rowsOf cluster = (system.store.tables.write request).2.log.entriesFor cluster
      | .error _ => mayFail ∧ ∀ cluster, after.rowsOf cluster = system.rowsOf cluster := by
  cases answer with
  | ok written =>
      obtain ⟨disk, store, wrote, rfl⟩ := answered.1.written
      exact ⟨rfl, Store.entriesFor_of_write wrote⟩
  | error error =>
      obtain ⟨tables, lastTick⟩ := answered.1.refused
      have allowed : mayFail := answered.2.resolve_left id
      exact ⟨lastTick, allowed, fun cluster => congrArg (fun tables => tables.log.entriesFor cluster) tables⟩

theorem does_delete {request : LogRequest} {write : Write} {call : Call} {answer : call.Answer}
    {next : call.Answer → Program (Except LinkError Nat)}
    (apart : ∀ joins cluster members, request ≠ .change joins cluster members)
    (asks : (do return (← Action.write write).count : Action Nat).run = .ask call next)
    (answered : Answers mayFail system call answer after)
    (deletes : ∀ cluster, (system.store.tables.write write).2.log.entriesFor cluster =
      (system.rowsOf cluster).filter fun row => !request.deletes cluster row.entity) :
    system.Does mayFail (.start request) (call.ticked answer) (next answer) after := by
  obtain ⟨rfl, rfl⟩ := Program.ask.inj asks
  obtain ⟨lastTick, rows⟩ := Answers.wrote answered
  cases answer with
  | ok written =>
      exact .delete request written.count apart lastTick fun cluster => (rows cluster).trans (deletes cluster)
  | error error => exact .fail _ error rows.1 lastTick rows.2

theorem does_record {joins : Bool} {cluster : Id} {members : Members} {tick : Int} {call : Call}
    {answer : call.Answer} {next : call.Answer → Program (Except LinkError Nat)}
    (asks : (MembershipLog.record cluster members (if joins then tick else -tick)).run = .ask call next)
    (answered : Answers mayFail system call answer after) :
    system.Does mayFail ⟨.change joins cluster members, some tick, .ask call next⟩ (call.ticked answer)
      (next answer) after := by
  unfold MembershipLog.record at asks
  split at asks
  · cases asks
  · obtain ⟨rfl, rfl⟩ := Program.ask.inj asks
    obtain ⟨lastTick, rows⟩ := Answers.wrote answered
    cases answer with
    | ok written =>
        refine .append joins cluster members tick written.count lastTick (fun other => ?_) rfl
        rw [rows other]
        exact LogTable.entriesFor_append _ _ _
    | error error => exact .fail _ error rows.1 lastTick rows.2

theorem does_of_phase {caller : LogCaller} (phase : caller.Phase) {call : Call} {answer : call.Answer}
    {next : call.Answer → Program (Except LinkError Nat)} (asks : caller.rest = .ask call next)
    (answered : Answers mayFail system call answer after) :
    system.Does mayFail caller (call.ticked answer) (next answer) after := by
  cases phase with
  | done => cases asks
  | ticked joins cluster members tick =>
      have does := does_record asks answered
      rwa [← asks] at does
  | fresh request =>
      cases request with
      | change joins cluster members =>
          -- The first call takes the tick, and what is left is to write the rows with it.
          have first : (LogCaller.start (.change joins cluster members)).rest = .ask .tick fun tick =>
              (MembershipLog.record cluster members (if joins then tick else -tick)).run := by
            cases joins <;> rfl
          obtain ⟨rfl, rfl⟩ := Program.ask.inj (first.symm.trans asks)
          obtain ⟨rfl, rfl⟩ := Prod.mk.injEq .. ▸ Option.some.inj answered.1
          exact .tick joins cluster members _ (Membership.lt_tick _ _) (Membership.one_le_tick _ _) rfl
            fun _ => rfl
      | deleteSet cluster set =>
          refine does_delete nofun asks answered fun other => ?_
          exact LogTable.entriesFor_remove_of_plan _ cluster other _
      | deleteMembers cluster members =>
          refine does_delete nofun asks answered fun other => ?_
          exact LogTable.entriesFor_remove_of_plan _ cluster other _

end System

end RecordLinkage
