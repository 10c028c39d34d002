import RecordLinkage.Proofs.Linking.Calls
import RecordLinkage.Proofs.Lock.Lookups
import RecordLinkage.Proofs.Match.Balance

/-! Batches of edges. Any number of transactions collect edges at the same time; what one has collected
reaches the match table when it is flushed or committed, all at once or, if the write fails, not at all.
Whatever else is done with a transaction leaves the table alone. -/

namespace RecordLinkage

inductive TransactionRequest where
  | insert (cluster : Id) (scores : ScoreMap)
  | flush
  | commit
  | rollback
  | drop

def TransactionRequest.program : TransactionRequest → Transaction →
    Program (Except LinkError Nat × Option Transaction)
  | insert cluster scores, transaction =>
      match transaction.stage cluster scores with
      | .ok after => return (.ok (after.pendingWrites - transaction.pendingWrites), some after)
      | .error error => return (.error (.validation error), some transaction)
  | flush, transaction => do return (← transaction.flush.run, some transaction.emptied)
  | commit, transaction => do return (← transaction.commit.run, none)
  | rollback, transaction | drop, transaction => do
      transaction.rollback
      return (.ok 0, none)

theorem TransactionRequest.answered (request : TransactionRequest) (transaction : Transaction) (system : System) :
    (request.program transaction).Ensures (Program.answeredBy System.answer?)
      (fun system call => (system.answer? call).isSome) (fun _ _ => True) system := by
  have flushes : transaction.flush.run.Ensures (Program.answeredBy System.answer?)
      (fun system call => (system.answer? call).isSome) (fun _ _ => True) system := by
    unfold Transaction.flush
    split
    · trivial
    · exact ⟨rfl, fun now after _ => ⟨rfl, fun answer after _ => by cases answer <;> trivial⟩⟩
  have releases : ∀ system, transaction.release.Ensures (Program.answeredBy System.answer?)
      (fun system call => (system.answer? call).isSome) (fun _ _ => True) system := by
    intro system
    unfold Transaction.release releaseLocks
    split
    · trivial
    · exact ⟨rfl, fun _ _ _ => trivial⟩
  cases request with
  | insert cluster scores =>
      simp only [program]
      split <;> trivial
  | flush => exact (Program.ensures_bind _ _ _).mpr (flushes.mono fun _ _ _ => trivial)
  | commit =>
      refine (Program.ensures_bind _ _ _).mpr ((Program.ensures_bind _ _ _).mpr (flushes.mono fun _ _ _ => ?_))
      exact (Program.ensures_bind _ _ _).mpr ((releases _).mono fun _ _ _ => trivial)
  | rollback | drop => exact (Program.ensures_bind _ _ _).mpr ((releases _).mono fun _ _ _ => trivial)

inductive TransactionOpening where
  | clusters (ids : IdSet)
  | members (entities : EntitySet)

def TransactionOpening.action : TransactionOpening → Action Transaction
  | clusters ids => ExceptT.lift (ClusterGraph.lockClusters ids)
  | members entities => ClusterGraph.lockMembers entities

structure Batch where
  edges : List ScoredEdge
  time : Instant

namespace Batch

def rows (batch : Batch) : List (Edge × MatchRow) :=
  batch.edges.map fun scored => (scored.edge, ⟨scored.score, batch.time⟩)

end Batch

namespace MatchTable

def writeAll (table : MatchTable) (batches : List Batch) : MatchTable :=
  batches.foldl (fun table batch => table.upsert batch.edges batch.time) table

end MatchTable

theorem LockTable.release_none (table : LockTable) : table.release ∅ ∅ = table := by
  apply ext_holds
  intro lock
  have none : (⟨∅, ∅⟩ : LockTable).holds lock = false := holds_empty lock
  simp [holds_release, none]

theorem System.MayAnswer.upserted {system after : System} {edges : List ScoredEdge} {time : Instant}
    {written : Written} (possible : system.MayAnswer (.write (.upsertEdges edges time)) (.ok written) after) :
    written = .rows edges.length ∧
      after.store.tables = { system.store.tables with matched := system.store.tables.matched.upsert edges time } := by
  obtain ⟨disk, store, wrote, rfl⟩ := possible.written
  refine ⟨(Store.written_of_write wrote).1, ?_⟩
  rcases Store.tables_of_write wrote with same | ⟨empty, same⟩
  · exact same
  · -- Without edges nothing is written, and nothing would change.
    obtain rfl : edges = [] := by simpa [Tables.plan, Change.isEmpty] using empty
    exact same

namespace Transaction

def Admits (transaction : Transaction) (cluster : Id) (scores : ScoreMap) : Prop :=
  cluster ∈ transaction.clusters ∧ ∀ link score, scores.score? link = some score → score.inUnit

theorem stage_isOk {transaction : Transaction} {cluster : Id} {scores : ScoreMap} :
    (transaction.stage cluster scores).isOk ↔ transaction.Admits cluster scores := by
  constructor
  · intro accepted
    unfold stage at accepted
    split at accepted
    · cases accepted
    · rename_i holds
      dsimp only at accepted
      split at accepted
      · cases accepted
      · rename_i inUnit
        simp only [List.find?_eq_none, Bool.not_eq_true', Bool.not_eq_false] at inUnit
        refine ⟨by simpa [Transaction.holds] using holds, fun link score found => ?_⟩
        exact inUnit ⟨⟨cluster, link⟩, score⟩ (ScoreMap.mem_edges.mpr ⟨rfl, found⟩)
  · rintro ⟨held, inUnit⟩
    rw [Action.stage_eq_ok transaction held fun scored listed =>
      inUnit _ _ (ScoreMap.mem_edges.mp listed).2]
    rfl

structure Flushed (transaction : Transaction) (before : System) (answer : Except LinkError Nat)
    (after : System) : Prop where
  locks : after.locks = before.locks
  written : ∀ count, answer = .ok count → count = transaction.staged.length ∧
    after.store.tables = { before.store.tables with
      matched := before.store.tables.matched.upsert transaction.staged before.now }
  failed : ∀ error, answer = .error error → after.store.tables = before.store.tables

variable {transaction : Transaction} {system after : System} {answer : Except LinkError Nat}

theorem flushed_of_run
    (run : Program.Runs (System.Answers True) transaction.flush.run system answer after) :
    transaction.Flushed system answer after := by
  unfold flush at run
  split at run
  · rename_i none
    rw [List.isEmpty_iff] at none
    cases run with
    | done =>
        refine ⟨rfl, fun count same => ?_, nofun⟩
        obtain rfl := Except.ok.inj same
        exact ⟨by rw [none]; rfl, by rw [none]; rfl⟩
  · cases run with
    | ask read run =>
    cases run with
    | @ask _ _ given _ _ _ _ wrote run =>
    obtain ⟨rfl, rfl⟩ := Prod.mk.inj (Option.some.inj read.1)
    have locks := wrote.1.fixes.locks nofun
    cases given with
    | ok written =>
        cases run with
        | done =>
            refine ⟨locks, fun count same => ?_, nofun⟩
            obtain rfl := Except.ok.inj same
            obtain ⟨rfl, tables⟩ := wrote.1.upserted
            exact ⟨rfl, tables⟩
    | error error =>
        cases run with
        | done => exact ⟨locks, nofun, fun _ _ => wrote.1.refused.1⟩

structure Released (transaction : Transaction) (before after : System) : Prop where
  locks : after.locks = before.locks.release transaction.members transaction.clusters
  tables : after.store.tables = before.store.tables

theorem released_of_run
    (run : Program.Runs (System.Answers True) transaction.release system () after) :
    transaction.Released system after := by
  unfold release releaseLocks at run
  split at run
  · rename_i none
    simp only [Bool.and_eq_true, Std.ExtTreeSet.isEmpty_iff] at none
    cases run with
    | done => exact ⟨by rw [none.1, none.2, LockTable.release_none], rfl⟩
  · cases run with
    | ask released run =>
    cases run with
    | done =>
        have given := released.1
        simp only [System.MayAnswer, System.answer?, LockTable.answer?, Option.map_some, Option.some.injEq,
          Prod.mk.injEq, true_and] at given
        subst given
        exact ⟨rfl, rfl⟩

end Transaction

structure TransactionEvent where
  number : Nat
  request : TransactionRequest
  time : Instant
  transaction : Transaction
  answer : Except LinkError Nat
  left : Option Transaction

namespace TransactionEvent

def Fits (event : TransactionEvent) : Prop :=
  let transaction := event.transaction
  match event.request, event.answer with
  | .insert cluster scores, .ok count =>
      transaction.Admits cluster scores ∧ count = (scores.edges cluster).length ∧
        event.left = some { transaction with staged := transaction.staged ++ scores.edges cluster }
  | .insert cluster scores, .error _ =>
      ¬transaction.Admits cluster scores ∧ event.left = some transaction
  | .flush, .ok count => count = transaction.staged.length ∧ event.left = some transaction.emptied
  | .flush, .error _ => event.left = some transaction.emptied
  | .commit, .ok count => count = transaction.staged.length ∧ event.left = none
  | .commit, .error _ => event.left = none
  | .rollback, answer | .drop, answer => answer = .ok 0 ∧ event.left = none

def written (event : TransactionEvent) (waiting : List ScoredEdge) : List Batch :=
  match event.request, event.answer with
  | .flush, .ok _ | .commit, .ok _ => [⟨waiting, event.time⟩]
  | _, _ => []

def waiting (event : TransactionEvent) (before : List ScoredEdge) : List ScoredEdge :=
  match event.request, event.answer with
  | .insert cluster scores, .ok _ => before ++ scores.edges cluster
  | .insert _ _, .error _ => before
  | _, _ => []

structure Happens (event : TransactionEvent) (before after : System) : Prop where
  fits : event.Fits
  tables : after.store.tables = { before.store.tables with
    matched := before.store.tables.matched.writeAll (event.written event.transaction.staged) }
  staged : ∀ left, event.left = some left → left.staged = event.waiting event.transaction.staged
  locks : (∃ left, event.left = some left ∧ left.locks = event.transaction.locks ∧ after.locks = before.locks) ∨
    event.left = none ∧
      after.locks = before.locks.release event.transaction.members event.transaction.clusters

variable {number : Nat} {transaction : Transaction} {system after : System} {answer : Except LinkError Nat}
  {left : Option Transaction}

theorem happens_insert {cluster : Id} {scores : ScoreMap}
    (run : Program.Runs (System.Answers True) (TransactionRequest.program (.insert cluster scores) transaction)
      system (answer, left) after) :
    Happens ⟨number, .insert cluster scores, system.now, transaction, answer, left⟩ system after := by
  simp only [TransactionRequest.program] at run
  split at run
  · rename_i staged accepted
    have admits : transaction.Admits cluster scores := Transaction.stage_isOk.mp (by rw [accepted]; rfl)
    obtain rfl := Transaction.stage_ok accepted
    cases run with
    | done =>
        refine ⟨⟨admits, ?_, rfl⟩, rfl, ?_, .inl ⟨_, rfl, rfl, rfl⟩⟩
        · simp [Transaction.pendingWrites]
        · rintro _ ⟨rfl⟩
          rfl
  · rename_i error refused
    have admits : ¬transaction.Admits cluster scores := by
      rw [← Transaction.stage_isOk, refused]
      exact nofun
    cases run with
    | done =>
        refine ⟨⟨admits, rfl⟩, rfl, ?_, .inl ⟨_, rfl, rfl, rfl⟩⟩
        rintro _ ⟨rfl⟩
        rfl

theorem happens_flush
    (run : Program.Runs (System.Answers True) (TransactionRequest.program .flush transaction) system (answer, left)
      after) :
    Happens ⟨number, .flush, system.now, transaction, answer, left⟩ system after := by
  obtain ⟨_, _, flushes, done⟩ := run.of_bind
  cases done with
  | done =>
      have flushed := Transaction.flushed_of_run flushes
      have kept : ∀ left, some transaction.emptied = some left → left.staged = [] := by
        rintro _ ⟨rfl⟩
        rfl
      cases answer with
      | ok count =>
          obtain ⟨all, tables⟩ := flushed.written count rfl
          exact ⟨⟨all, rfl⟩, tables, kept, .inl ⟨_, rfl, rfl, flushed.locks⟩⟩
      | error error => exact ⟨rfl, flushed.failed error rfl, kept, .inl ⟨_, rfl, rfl, flushed.locks⟩⟩

theorem happens_commit
    (run : Program.Runs (System.Answers True) (TransactionRequest.program .commit transaction) system (answer, left)
      after) :
    Happens ⟨number, .commit, system.now, transaction, answer, left⟩ system after := by
  obtain ⟨_, _, commits, done⟩ := run.of_bind
  cases done with
  | done =>
  obtain ⟨_, middle, flushes, ends⟩ := commits.of_bind
  obtain ⟨_, _, releases, done⟩ := ends.of_bind
  cases done with
  | done =>
      have flushed := Transaction.flushed_of_run flushes
      have released := Transaction.released_of_run releases
      have locks := flushed.locks ▸ released.locks
      cases answer with
      | ok count =>
          obtain ⟨all, tables⟩ := flushed.written count rfl
          exact ⟨⟨all, rfl⟩, released.tables.trans tables, nofun, .inr ⟨rfl, locks⟩⟩
      | error error =>
          exact ⟨rfl, released.tables.trans (flushed.failed error rfl), nofun, .inr ⟨rfl, locks⟩⟩

theorem happens_request (number : Nat) {request : TransactionRequest}
    (run : Program.Runs (System.Answers True) (request.program transaction) system (answer, left) after) :
    Happens ⟨number, request, system.now, transaction, answer, left⟩ system after := by
  cases request with
  | insert cluster scores => exact happens_insert run
  | flush => exact happens_flush run
  | commit => exact happens_commit run
  | rollback | drop =>
      change Program.Runs _ (transaction.rollback >>= _) _ _ _ at run
      obtain ⟨_, _, releases, done⟩ := Program.Runs.of_bind run
      cases done with
      | done =>
          have released := Transaction.released_of_run releases
          exact ⟨⟨rfl, rfl⟩, released.tables, nofun, .inr ⟨rfl, released.locks⟩⟩

end TransactionEvent

/-- One owner more: the locks that it has beside the others are the new ones. -/
theorem LockTable.Shared.of_beside {table after own : LockTable} {held : Nat → LockTable} {owner : Nat}
    (shared : table.Shared held) (none : held owner = .empty) (beside : after.Shared (beside table own)) :
    after.Shared (Function.update held owner own) := by
  refine shared.update ?_ ?_
  · intro lock
    simp only [beside.all, none, holds_empty, Bool.false_eq_true, not_false_eq_true, and_true]
    constructor
    · rintro ⟨_ | _ | _, has⟩
      · exact .inr has
      · exact .inl has
      · simp [LockTable.beside] at has
    · rintro (has | has)
      · exact ⟨1, has⟩
      · exact ⟨0, has⟩
  · intro lock has
    exact .inr fun old => absurd (beside.apart 0 1 lock old has) (by simp)

theorem System.runs_of_result {α : Type} {program : Program α} {system : System} {value : α}
    (ended : (program.run answer? system).1.result? = some value) :
    Program.Runs (Answers True) program system value (program.run answer? system).2 :=
  (Program.runs_of_result ended).mono
    fun _ _ _ _ answered => ⟨mayAnswer_of_answer? answered, .inr trivial⟩

/-- What a caller that keeps to its own locks has in the end, beside what others have. -/
theorem System.shared_of_keeps {α : Type} {action : Action α} {post : α → LockProgress → Prop}
    {system after : System} {result : Except LinkError α} (keeps : action.Keeps post .start)
    (run : Program.Runs (System.Answers True) action.run system result after) :
    ∃ progress : LockProgress, after.locks.Shared (LockTable.beside system.locks progress.held) ∧
      Action.outcome (fun _ after => after.held = .empty) post result progress := by
  refine run.simulated keeps
    (fun state progress => state.locks.Shared (LockTable.beside system.locks progress.held))
    (LockTable.shared_beside_empty system.locks) ?_
  intro state progress call answer later shared keeps answered
  obtain ⟨next, given⟩ := LockProgress.exists_anyhow progress call answer
  exact ⟨next, given, given.held ▸ System.shared_of_answered shared keeps answered.1⟩

namespace TransactionOpening

theorem asks (opening : TransactionOpening) :
    opening.action.Asks True Call.Reserves fun transaction => transaction.staged = [] := by
  have locks : ∀ request, Call.Reserves (.lock request) := fun _ => trivial
  cases opening with
  | clusters ids =>
      refine (Action.ensures_lift _ _).mpr ((Program.ensures_bind _ _ _).mpr ?_)
      exact ((Action.ensures_lift _ _).mp (Action.asks_takeLocks locks _)).mono fun _ _ _ => rfl
  | members entities =>
      have reads : (ClusterGraph.clustersContaining entities).Asks True Call.Reserves fun _ => True :=
        Action.asks_clustersContaining (fun _ => trivial) entities
      exact (Action.asks_lockStable entities locks (fun _ => trivial) reads).mono fun _ _ => And.left

theorem keeps (opening : TransactionOpening) :
    opening.action.Keeps (fun transaction after => after.held = transaction.locks) .start := by
  cases opening with
  | clusters ids =>
      refine (Action.ensures_lift _ _).mpr ((Program.ensures_bind _ _ _).mpr ?_)
      exact Program.keeps_acquire rfl fun _ held => held
  | members entities =>
      exact (Action.keeps_lockStable entities true (Action.stores_clustersContaining entities) rfl).mono
        fun _ _ => And.left

variable {opening : TransactionOpening} {system after : System}

theorem tables_of_run {result : Except LinkError Transaction}
    (run : Program.Runs (System.Answers True) opening.action.run system result after) :
    after.store.tables = system.store.tables := by
  have kept : opening.action.Ensures (System.Answers True) (fun _ _ => True)
      (fun _ state => state.store.tables = system.store.tables)
      (fun _ state => state.store.tables = system.store.tables) system := by
    refine (opening.asks.ensures (fun state : System => state.store.tables = system.store.tables) rfl
      (fun _ _ _ _ => trivial) ?_).mono fun _ _ => And.left
    intro state call answer later same reserves answered
    rcases answered.1.tables with unchanged | ⟨request, rfl, _⟩
    · exact unchanged.trans same
    · exact reserves.elim
  have ended := run.ensured kept
  cases result <;> exact ended

end TransactionOpening

structure Transactions where
  system : System
  handles : List (Option Transaction)

namespace Transactions

def held (state : Transactions) : Nat → LockTable :=
  LockTable.listed (fun handle => (handle.map Transaction.locks).getD .empty) state.handles

def staged (state : Transactions) (number : Nat) : List ScoredEdge :=
  ((state.handles[number]?.getD none).map Transaction.staged).getD []

inductive Run (start : Transactions) : List TransactionEvent → Transactions → Prop
  | start : Run start [] start
  | opened {events : List TransactionEvent} {system after : System} {handles : List (Option Transaction)}
      (opening : TransactionOpening) (transaction : Transaction) :
      Run start events ⟨system, handles⟩ →
      Program.Runs (System.Answers True) opening.action.run system (.ok transaction) after →
      Run start events ⟨after, handles ++ [some transaction]⟩
  | refused {events : List TransactionEvent} {system after : System} {handles : List (Option Transaction)}
      {opening : TransactionOpening} {error : LinkError} :
      Run start events ⟨system, handles⟩ →
      Program.Runs (System.Answers True) opening.action.run system (.error error) after →
      Run start events ⟨after, handles⟩
  | requested {events : List TransactionEvent} {system after : System} {handles : List (Option Transaction)}
      (number : Nat) {transaction : Transaction} (request : TransactionRequest)
      {answer : Except LinkError Nat} {left : Option Transaction} :
      Run start events ⟨system, handles⟩ → handles[number]? = some (some transaction) →
      Program.Runs (System.Answers True) (request.program transaction) system (answer, left) after →
      Run start (⟨number, request, system.now, transaction, answer, left⟩ :: events)
        ⟨after, handles.set number left⟩

def waiting (start : Transactions) (number : Nat) : List TransactionEvent → List ScoredEdge
  | [] => start.staged number
  | event :: earlier =>
      let before := waiting start number earlier
      if event.number = number then event.waiting before else before

def batches (start : Transactions) : List TransactionEvent → List Batch
  | [] => []
  | event :: earlier => batches start earlier ++ event.written (waiting start event.number earlier)

structure Accounts (start : Transactions) (events : List TransactionEvent) (state : Transactions) : Prop where
  tables : state.system.store.tables = { start.system.store.tables with
    matched := start.system.store.tables.matched.writeAll (batches start events) }
  staged : ∀ number transaction, state.handles[number]? = some (some transaction) →
    transaction.staged = waiting start number events
  unopened : ∀ number, state.handles.length ≤ number → waiting start number events = []
  fits : ∀ event ∈ events, event.Fits
  shared : state.system.locks.Shared state.held

variable {start state : Transactions} {events : List TransactionEvent}

section Steps

variable {system after : System} {handles : List (Option Transaction)}

theorem held_set (system : System) {number : Nat} (inside : number < handles.length) (left : Option Transaction) :
    held ⟨after, handles.set number left⟩ =
      Function.update (held ⟨system, handles⟩) number ((left.map Transaction.locks).getD .empty) :=
  LockTable.listed_set inside left

theorem held_opened (transaction : Transaction) :
    held ⟨after, handles ++ [some transaction]⟩ =
      Function.update (held ⟨system, handles⟩) handles.length transaction.locks := by
  have placed : handles ++ [some transaction] = (handles ++ [none]).set handles.length (some transaction) := by
    simp
  rw [placed, held_set system (by simp)]
  exact congrArg (Function.update · _ _) (LockTable.listed_append rfl)

theorem Accounts.opened (accounts : start.Accounts events ⟨system, handles⟩) {opening : TransactionOpening}
    {transaction : Transaction}
    (run : Program.Runs (System.Answers True) opening.action.run system (.ok transaction) after) :
    start.Accounts events ⟨after, handles ++ [some transaction]⟩ where
  tables := (TransactionOpening.tables_of_run run).trans accounts.tables
  staged number other found := by
    rcases Nat.lt_or_ge number handles.length with inside | outside
    · rw [List.getElem?_append_left inside] at found
      exact accounts.staged number other found
    · rw [List.getElem?_append_right outside, List.getElem?_singleton] at found
      split at found
      · obtain rfl := Option.some.inj (Option.some.inj found)
        rw [accounts.unopened number outside]
        exact opening.asks.holds run
      · cases found
  unopened number outside := accounts.unopened number <| by
    rw [List.length_append] at outside
    exact Nat.le_of_add_right_le outside
  fits := accounts.fits
  shared := by
    obtain ⟨progress, beside, own⟩ := System.shared_of_keeps opening.keeps run
    have own : progress.held = transaction.locks := own
    have none : (held ⟨system, handles⟩) handles.length = .empty := by simp [held, LockTable.listed]
    have given := accounts.shared.of_beside none (own ▸ beside)
    rwa [← held_opened] at given

theorem Accounts.refused (accounts : start.Accounts events ⟨system, handles⟩) {opening : TransactionOpening}
    {error : LinkError}
    (run : Program.Runs (System.Answers True) opening.action.run system (.error error) after) :
    start.Accounts events ⟨after, handles⟩ where
  tables := (TransactionOpening.tables_of_run run).trans accounts.tables
  staged := accounts.staged
  unopened := accounts.unopened
  fits := accounts.fits
  shared := by
    obtain ⟨progress, beside, free⟩ := System.shared_of_keeps opening.keeps run
    have same : after.locks = system.locks := LockTable.Shared.eq_of_none (free ▸ beside)
    exact same ▸ accounts.shared

theorem Accounts.requested (accounts : start.Accounts events ⟨system, handles⟩) {number : Nat}
    {transaction : Transaction} {request : TransactionRequest} {answer : Except LinkError Nat}
    {left : Option Transaction} (found : handles[number]? = some (some transaction))
    (run : Program.Runs (System.Answers True) (request.program transaction) system (answer, left) after) :
    start.Accounts (⟨number, request, system.now, transaction, answer, left⟩ :: events)
      ⟨after, handles.set number left⟩ := by
  have happens := TransactionEvent.happens_request number run
  have collected := accounts.staged number transaction found
  constructor
  · rw [happens.tables, accounts.tables, MatchTable.writeAll, batches, ← collected]
    simp only [MatchTable.writeAll, List.foldl_append]
  · intro other open' found'
    rw [waiting]
    by_cases same : number = other
    · subst same
      obtain ⟨inside, _⟩ := List.getElem?_eq_some_iff.mp found
      rw [List.getElem?_set_self inside] at found'
      rw [if_pos rfl, ← collected]
      exact happens.staged open' (Option.some.inj found')
    · rw [List.getElem?_set_ne same] at found'
      rw [if_neg same]
      exact accounts.staged other open' found'
  · intro other outside
    rw [List.length_set] at outside
    obtain ⟨inside, _⟩ := List.getElem?_eq_some_iff.mp found
    rw [waiting, if_neg (by dsimp only; omega)]
    exact accounts.unopened other outside
  · exact List.forall_mem_cons.mpr ⟨happens.fits, accounts.fits⟩
  · obtain ⟨inside, _⟩ := List.getElem?_eq_some_iff.mp found
    have own : held ⟨system, handles⟩ number = transaction.locks := LockTable.listed_eq _ found
    rw [held_set system inside]
    rcases happens.locks with ⟨left, rfl, same, locks⟩ | ⟨rfl, locks⟩
    · have kept : Function.update (held ⟨system, handles⟩) number left.locks = held ⟨system, handles⟩ := by
        rw [same, ← own, Function.update_eq_self]
      rw [locks, Option.map_some, Option.getD_some, kept]
      exact accounts.shared
    · rw [locks]
      exact accounts.shared.release own

end Steps

end Transactions

namespace Sample

def clusters : IdSet := .ofList [(.ofNat 7 : Id)]

def alike : ScoreMap := ScoreMap.add ∅ left right .one

end Sample

end RecordLinkage
