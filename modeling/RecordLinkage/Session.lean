import RecordLinkage.Linking
import RecordLinkage.System
import RecordLinkage.World

/-! A session: a linker at work in a world in memory. Failures can be planned ahead for calls of a name,
transactions stay open under a name, and programs that have to wait for a lock stay behind as tasks
and go on when they can. -/

namespace RecordLinkage

/-- Of the calls with a name, the first `skip` go through and the next `times` fail. -/
structure PlannedFailure where
  error : LinkError
  skip : Nat
  times : Nat

abbrev FailurePlan := Std.ExtTreeMap String PlannedFailure

inductive Finished where
  | transaction (name : String) (answer : Except LinkError Transaction)
  | count (answer : Except LinkError Nat)
  | acquired

structure Session where
  system : System
  world : World
  linker : Linker
  syncs : Bool
  failures : FailurePlan
  calls : Std.ExtTreeMap String Nat
  requests : List SearchRequest
  strangers : Nat
  transactions : List (String × Transaction)
  tasks : List (String × Program Finished)

namespace Session

def start (store : Store) (world : World) (linker : Linker) (syncs : Bool)
    (clock : Nat → Instant) (ids : Nat → Id) : Session :=
  { system := .fresh store world.host linker.config.cache.feedbackLifetime clock ids
    world, linker, syncs
    failures := ∅
    calls := ∅
    requests := []
    strangers := 0
    transactions := []
    tasks := [] }

def nextFailure (plan : FailurePlan) (name : String) : Option LinkError × FailurePlan :=
  match plan[name]? with
  | none => (none, plan)
  | some failure =>
      if failure.skip > 0 then
        (none, plan.insert name { failure with skip := failure.skip - 1 })
      else if failure.times > 0 then
        (some failure.error, plan.insert name { failure with times := failure.times - 1 })
      else (none, plan)

def note (session : Session) (name : String) (call : Call) : Session :=
  let session := { session with calls := session.calls.insert name (session.calls.getD name 0 + 1) }
  match call with
  | .host (.search request) => { session with requests := session.requests ++ [request] }
  | _ => session

def addStranger (session : Session) : (call : Call) → call.Answer → call.Answer × Session
  | .read (.clustersContaining _), .ok ids =>
      if session.strangers = 0 then (.ok ids, session)
      else
        (.ok (ids.insert (.ofNat (0xe000 + session.strangers))),
          { session with strangers := session.strangers - 1 })
  | _, answer => (answer, session)

def answer? (session : Session) (call : Call) : Option (call.Answer × Session) :=
  match call.name? with
  | none => (session.system.answer? call).map fun (answer, system) => (answer, { session with system })
  | some name =>
      let (error, failures) := nextFailure session.failures name
      let session := { session.note name call with failures }
      match error.bind call.refusal? with
      | some answer => some (answer, session)
      | none => (session.system.answer? call).map fun (answer, system) =>
          addStranger { session with system } call answer

def run {α : Type} (program : Program α) : StateM Session (Program α) := do
  let (rest, session) := program.run answer? (← get)
  set session
  return rest

def perform {α : Type} (program : Program α) : StateM Session (Option α) := do
  match ← run program with
  | .done value => return some value
  | .ask _ _ => return none

def attempt {α : Type} (action : Action α) : StateM Session (Except LinkError α) := do
  return (← perform action.run).getD (.error (.internal "waiting for a lock"))

def launch (name : String) (task : Program Finished) : StateM Session (Option Finished) := do
  match ← run task with
  | .done finished => return some finished
  | rest =>
      modify fun session => { session with
        tasks := session.tasks.filter (·.1 ≠ name) ++ [(name, rest)] }
      return none

def collect (name : String) : StateM Session (Option Finished) := do
  let session ← get
  match session.tasks.find? (·.1 = name) with
  | some (_, .done finished) =>
      set { session with tasks := session.tasks.filter (·.1 ≠ name) }
      return some finished
  | _ => return none

def advanceAll : List (String × Program Finished) → StateM Session (List (String × Program Finished))
  | [] => return []
  | (name, task) :: tasks => do
      let task ← run task
      return (name, task) :: (← advanceAll tasks)

def advanceTimes : Nat → StateM Session Unit
  | 0 => return ()
  | times + 1 => do
      let tasks ← advanceAll (← get).tasks
      modify fun session => { session with tasks }
      advanceTimes times

def advance : StateM Session Unit := do advanceTimes (← get).tasks.length

def transaction? (session : Session) (name : String) : Option Transaction :=
  (session.transactions.find? (·.1 = name)).map (·.2)

def forget (name : String) : StateM Session Unit :=
  modify fun session => { session with
    transactions := session.transactions.filter (·.1 ≠ name) }

def abandon (name : String) : StateM Session Unit := do
  match (← get).transaction? name with
  | some transaction =>
      forget name
      let _ ← perform transaction.rollback
  | none => return ()

def replace (name : String) (transaction : Transaction) : StateM Session Unit :=
  modify fun session => { session with
    transactions := session.transactions.filter (·.1 ≠ name) ++ [(name, transaction)] }

def keep (name : String) (transaction : Transaction) : StateM Session Unit := do
  abandon name
  replace name transaction

def changeWorld (change : World → World) : StateM Session Unit :=
  modify fun session =>
    let world := change session.world
    { session with world, system := { session.system with host := world.host } }

def changeIndex (change : Index → Index) : StateM Session Unit :=
  modify fun session => { session with
    system := { session.system with index := change session.system.index } }

def now : StateM Session Instant := do
  let instant := (← get).system.now
  modify fun session => { session with system := session.system.read }
  return instant

def journal? (session : Session) : Option Journal :=
  match session.system.store with
  | .durable kept => some kept.journal
  | .memory _ => none

/-- Closes the database, takes some bytes off the end of its journal, adds others, and opens it again.
Open transactions, tasks and strangers are gone afterwards; planned failures stay. -/
def reopen (cut : Nat) (tail : List UInt8) : StateM Session (Except LinkError Unit) := do
  let session ← get
  let file := (session.journal?.map Journal.close).getD []
  let place : JournalPlace := .file (file.take (file.length - cut) ++ tail)
  match (DurableTables.openAt place session.syncs).2 with
  | .error error => return .error error
  | .ok kept =>
      set { session with
        system := session.system.restarted (.durable kept)
        strangers := 0
        transactions := []
        tasks := [] }
      return .ok ()

end Session

end RecordLinkage
