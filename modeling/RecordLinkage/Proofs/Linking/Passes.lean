import RecordLinkage.Proofs.Linking.Alone

/-! Passes that run at the same time, one call of one pass after the other in any order. The calls of a
pass fall into stages: it looks for something to link, takes its locks, and links under them. -/

namespace RecordLinkage

inductive Stage where
  | reading (rest : Action (LinkOutcome ⊕ Prepared))
  | locking (prepared : Prepared) (rest : Action Transaction)
  | placing (prepared : Prepared) (transaction : Transaction) (rest : Action LinkOutcome)
  | ended (result : Except LinkError LinkOutcome)

namespace Stage

def rest : Stage → Action LinkOutcome
  | reading rest => rest >>= Linking.resume
  | locking prepared rest => rest >>= prepared.settle
  | placing _ _ rest => rest
  | ended result => ExceptT.mk (.done result)

def ofPlacing (prepared : Prepared) (transaction : Transaction) :
    Program (Except LinkError LinkOutcome) → Stage
  | .done result => .ended result
  | .ask call next => .placing prepared transaction (Program.ask call next)

def ofLocking (prepared : Prepared) : Program (Except LinkError Transaction) → Stage
  | .done (.ok transaction) => ofPlacing prepared transaction (prepared.settle transaction).run
  | .done (.error error) => .ended (.error error)
  | .ask call next => .locking prepared (Program.ask call next)

def ofReading : Program (Except LinkError (LinkOutcome ⊕ Prepared)) → Stage
  | .done (.ok (.inl outcome)) => .ended (.ok outcome)
  | .done (.ok (.inr prepared)) => ofLocking prepared (ClusterGraph.lockMembers prepared.members).run
  | .done (.error error) => .ended (.error error)
  | .ask call next => .reading (Program.ask call next)

def start (linker : Linker) (focal : EntityKey) : Stage := ofReading (linker.prepare focal).run

def next? : Stage → Option ((call : Call) × (call.Answer → Stage))
  | reading (.ask call next) => some ⟨call, fun answer => ofReading (next answer)⟩
  | locking prepared (.ask call next) => some ⟨call, fun answer => ofLocking prepared (next answer)⟩
  | placing prepared transaction (.ask call next) =>
      some ⟨call, fun answer => ofPlacing prepared transaction (next answer)⟩
  | _ => none

theorem rest_ofPlacing (prepared : Prepared) (transaction : Transaction)
    (program : Program (Except LinkError LinkOutcome)) :
    (ofPlacing prepared transaction program).rest = program := by
  cases program <;> rfl

theorem rest_ofLocking (prepared : Prepared) (program : Action Transaction) :
    (ofLocking prepared program).rest = program >>= prepared.settle := by
  match program with
  | .done (.ok transaction) => exact rest_ofPlacing prepared transaction (prepared.settle transaction)
  | .done (.error error) => rfl
  | .ask call next => rfl

theorem rest_ofReading (program : Action (LinkOutcome ⊕ Prepared)) :
    (ofReading program).rest = program >>= Linking.resume := by
  match program with
  | .done (.ok (.inl outcome)) => rfl
  | .done (.ok (.inr prepared)) =>
      exact rest_ofLocking prepared (ClusterGraph.lockMembers prepared.members)
  | .done (.error error) => rfl
  | .ask call next => rfl

theorem rest_start (linker : Linker) (focal : EntityKey) :
    (start linker focal).rest = linker.link focal := by
  rw [linker.link_eq]
  exact rest_ofReading _

theorem rest_of_next? {stage : Stage} {call : Call} {next : call.Answer → Stage}
    (asks : stage.next? = some ⟨call, next⟩) :
    stage.rest.run = .ask call fun answer => (next answer).rest := by
  match stage with
  | reading (.ask _ rest) =>
      obtain ⟨rfl, rfl⟩ := asks
      refine congrArg (Program.ask _) (funext fun answer => ?_)
      exact (rest_ofReading _).symm
  | locking prepared (.ask _ rest) =>
      obtain ⟨rfl, rfl⟩ := asks
      refine congrArg (Program.ask _) (funext fun answer => ?_)
      exact (rest_ofLocking _ _).symm
  | placing prepared transaction (.ask _ rest) =>
      obtain ⟨rfl, rfl⟩ := asks
      refine congrArg (Program.ask _) (funext fun answer => ?_)
      exact (rest_ofPlacing _ _ _).symm
  | reading (.done _) | locking _ (.done _) | placing _ _ (.done _) | ended _ => cases asks

def acquires : Stage → Stage → Option (Prepared × Id)
  | locking prepared _, placing _ transaction _ => transaction.reserved.map (prepared, ·)
  | _, _ => none

def IsPlacing : Stage → Prop
  | placing _ _ _ => True
  | _ => False

def isEnded : Stage → Bool
  | ended _ => true
  | _ => false

def HasLocked : Stage → Prop
  | placing _ _ _ => True
  | ended (.ok outcome) => outcome.isSkipped = false
  | _ => False

end Stage

structure Acquisition where
  pass : Nat
  prepared : Prepared
  reserved : Id

structure Passes where
  system : System
  stages : List Stage
  acquired : List Acquisition

namespace Passes

def start (system : System) (linkers : List (Linker × EntityKey)) : Passes :=
  ⟨system, linkers.map fun (linker, focal) => .start linker focal, []⟩

inductive Step : Passes → Passes → Prop
  | call {passes : Passes} {index : Nat} {stage : Stage} {call : Call}
      {next : call.Answer → Stage} {answer : call.Answer} {after : System} :
      passes.stages[index]? = some stage → stage.next? = some ⟨call, next⟩ →
      System.Answers False passes.system call answer after →
      Step passes ⟨after, passes.stages.set index (next answer), passes.acquired ++
        ((stage.acquires (next answer)).map fun (prepared, reserved) =>
          (⟨index, prepared, reserved⟩ : Acquisition)).toList⟩

inductive Steps : Passes → Passes → Prop
  | none (passes : Passes) : Steps passes passes
  | next {first before after : Passes} : Steps first before → Step before after → Steps first after

def advance? (passes : Passes) (index : Nat) : Option Passes := do
  let stage ← passes.stages[index]?
  let ⟨call, next⟩ ← stage.next?
  let (answer, after) ← passes.system.answer? call
  return ⟨after, passes.stages.set index (next answer), passes.acquired ++
    ((stage.acquires (next answer)).map fun (prepared, reserved) =>
      (⟨index, prepared, reserved⟩ : Acquisition)).toList⟩

def advance (schedule : List Nat) (passes : Passes) : Passes :=
  schedule.foldl (fun passes index => (passes.advance? index).getD passes) passes

/-- In memory and with a host that does not fail, any order is one in which passes may run. -/
theorem steps_advance {first passes : Passes} {tables : Tables} (schedule : List Nat)
    (memory : passes.system.store = .memory tables)
    (host : ∀ call, (Call.host call).Succeeds (passes.system.host call))
    (steps : Steps first passes) : Steps first (passes.advance schedule) := by
  induction schedule generalizing passes tables with
  | nil => exact steps
  | cons index schedule ih =>
      simp only [advance, List.foldl_cons]
      cases moved : passes.advance? index with
      | none => exact ih memory host steps
      | some after =>
          simp only [advance?, Option.bind_eq_bind, Option.bind_eq_some_iff, Option.pure_def,
            Option.some.injEq] at moved
          obtain ⟨stage, found, ⟨call, next⟩, asks, ⟨answer, system⟩, answered, rfl⟩ := moved
          have possible := System.mayAnswer_of_answer? answered
          obtain ⟨succeeds, tables, kept⟩ := System.succeeds_of_host memory host answered
          refine ih kept ?_ (.next steps (.call found asks ⟨possible, .inl succeeds⟩))
          exact possible.fixes.host ▸ host

def AllEnded (passes : Passes) : Prop := ∀ stage ∈ passes.stages, stage.isEnded

end Passes

def System.linkedInOrder (system : System) (acquired : List Acquisition) : System :=
  acquired.foldl
    (fun system acquisition => (acquisition.prepared.alone acquisition.reserved system).2)
    { system with store := .memory system.store.tables }

end RecordLinkage
