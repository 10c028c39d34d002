import RecordLinkage.Program

/-! The membership log as a service. Every change takes a tick of its own, also one without members. -/

namespace RecordLinkage

namespace MembershipLog

def tick : Action Int := ExceptT.lift (Program.perform .tick)

def record (cluster : Id) (members : Members) (stamp : Int) : Action Nat :=
  match Membership.entries cluster members (.ofInt stamp) with
  | [] => return 0
  | entries => do return (← Action.write (.appendEntries entries)).count

def join (cluster : Id) (members : Members) : Action Nat := do
  let now ← tick
  record cluster members now

def leave (cluster : Id) (members : Members) : Action Nat := do
  let now ← tick
  record cluster members (-now)

def deleteSet (cluster set : Id) : Action Nat := do
  return (← Action.write (.deleteEntriesInSet cluster set)).count

def deleteMembers (cluster : Id) (members : Members) : Action Nat := do
  return (← Action.write (.deleteEntriesOf cluster members)).count

def membersAt (cluster : Id) (asOf : Int) : Action Members := do
  let entries : List LogEntry ← Action.read (.entriesFor cluster)
  return Membership.fold entries asOf

def latest (cluster : Id) : Action Members := membersAt cluster Membership.latest

def version (cluster : Id) (instant : Instant) : Action Members :=
  membersAt cluster instant.micros

end MembershipLog

end RecordLinkage
