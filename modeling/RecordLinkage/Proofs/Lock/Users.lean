import Mathlib.Logic.Relation
import RecordLinkage.Proofs.Lock.Holding
import RecordLinkage.Proofs.Linking.Verdicts
import RecordLinkage.Proofs.Program.Reaches

/-! Users of the graph that share one lock table. Each locks clusters or entities, deletes or links, one
call of one user after the other in any order, and any call to a store may fail. A transaction that was
handed out stays open until it is committed or rolled back, which is also what dropping it does. -/

namespace RecordLinkage

inductive GraphRequest where
  | lockClusters (clusters : IdSet)
  | lockMembers (members : EntitySet)
  | deleteEdge (link : Link)
  | deleteNeighborhood (entity : EntityKey) (kept : PairSet)
  | deleteNeighborhoods (set : Id) (keys : IdSet)
  | deleteSet (set : Id)
  | link (linker : Linker) (focal : EntityKey)
  | commit (transaction : Transaction)
  | rollback (transaction : Transaction)

namespace GraphRequest

def action : GraphRequest → Action (Option Transaction)
  | .lockClusters clusters => do
      return some (← ExceptT.lift (ClusterGraph.lockClusters clusters))
  | .lockMembers members => do
      return some (← ClusterGraph.lockMembers members)
  | .deleteEdge ends => do
      let _ ← ClusterGraph.deleteEdge ends
      return none
  | .deleteNeighborhood entity kept => do
      let _ ← ClusterGraph.deleteNeighborhood entity kept
      return none
  | .deleteNeighborhoods set keys => do
      let _ ← ClusterGraph.deleteNeighborhoods set keys
      return none
  | .deleteSet set => do
      let _ ← ClusterGraph.deleteSet set
      return none
  | .link linker focal => do
      let _ ← linker.link focal
      return none
  | .commit transaction => do
      let _ ← transaction.commit
      return none
  | .rollback transaction => do
      ExceptT.lift transaction.rollback
      return none

def locks : GraphRequest → LockTable
  | commit transaction | rollback transaction => transaction.locks
  | _ => .empty

def Opens : GraphRequest → Prop
  | commit _ | rollback _ => False
  | _ => True

theorem Opens.locks_eq {request : GraphRequest} (opens : request.Opens) : request.locks = .empty := by
  cases request with
  | commit | rollback => exact opens.elim
  | _ => rfl

def left : Except LinkError (Option Transaction) → LockTable
  | .ok (some transaction) => transaction.locks
  | _ => .empty

section Keeps

variable {α : Type} {progress : LockProgress}

theorem keeps_left {action : Action (Option Transaction)}
    (keeps : action.Keeps (fun given after => after.held = left (.ok given)) progress) :
    action.run.Ensures LockProgress.Anyhow LockProgress.Keeps
      (fun result after => after.held = left result) progress := by
  refine Program.Ensures.mono keeps ?_
  intro result after holds
  cases result <;> exact holds

theorem keeps_given {operation : Action Transaction}
    (keeps : operation.Keeps (fun transaction after => after.held = transaction.locks) progress) :
    Program.Ensures LockProgress.Anyhow LockProgress.Keeps (fun result after => after.held = left result)
      (do return some (← operation) : Action (Option Transaction)).run progress :=
  keeps_left ((Action.ensures_bind _ _ _).mpr (keeps.mono fun _ _ held => held))

theorem keeps_ended {operation : Action α}
    (keeps : operation.Keeps (fun _ after => after.held = .empty) progress) :
    Program.Ensures LockProgress.Anyhow LockProgress.Keeps (fun result after => after.held = left result)
      (do let _ ← operation; return none : Action (Option Transaction)).run progress :=
  keeps_left ((Action.ensures_bind _ _ _).mpr (keeps.mono fun _ _ free => free))

end Keeps

theorem keeps (request : GraphRequest) :
    request.action.run.Ensures LockProgress.Anyhow LockProgress.Keeps
      (fun result after => after.held = left result) ⟨request.locks, none⟩ := by
  have contains := Action.stores_clustersContaining
  have rows : ∀ request, (ClusterGraph.deleteRows request).Stores fun _ => True :=
    fun _ => Action.asks_deleteRows trivial
  cases request with
  | lockClusters clusters =>
      refine keeps_given ((Action.ensures_lift _ _).mpr ((Program.ensures_bind _ _ _).mpr ?_))
      exact Program.keeps_acquire rfl fun _ held => held
  | lockMembers members =>
      exact keeps_given ((Action.keeps_lockStable members true (contains members) rfl).mono
        fun _ _ => And.left)
  | deleteEdge ends => exact keeps_ended (Action.keeps_deletion _ (contains _) (fun _ => rows _) rfl)
  | deleteNeighborhood entity kept =>
      exact keeps_ended (Action.keeps_deletion _ (contains _)
        (Action.asks_deleteNeighborhoodIn (fun _ => trivial) trivial) rfl)
  | deleteNeighborhoods set keys => exact keeps_ended (Action.keeps_deleteNeighborhoods set keys rfl)
  | deleteSet set =>
      exact keeps_ended (Action.keeps_deletion _ (Action.stores_clustersTouchingSet set) (fun _ => rows _) rfl)
  | link linker focal => exact keeps_ended (Action.keeps_link linker focal rfl)
  | commit transaction => exact keeps_ended (Action.keeps_commit rfl)
  | rollback transaction =>
      exact keeps_ended ((Action.ensures_lift _ _).mpr (Program.keeps_release rfl fun _ => id))

/-- What is ensured of a transaction that is handed out. -/
theorem ensures_given {σ : Type} {answers : Answering σ} {safe : σ → Call → Prop}
    {refused : LinkError → σ → Prop} {post : Transaction → σ → Prop} {operation : Action Transaction} {state : σ}
    (ensured : operation.Ensures answers safe refused post state) :
    Program.Ensures answers safe
      (fun result after => ∀ transaction, result = .ok (some transaction) → post transaction after)
      (do return some (← operation) : Action (Option Transaction)).run state := by
  have given : Action.Ensures answers safe refused
      (fun result after => ∀ transaction, result = some transaction → post transaction after)
      (do return some (← operation)) state := by
    refine (Action.ensures_bind _ _ _).mpr (ensured.mono fun transaction after holds => ?_)
    exact (Action.ensures_pure _ _).mpr fun _ same => Option.some.inj same ▸ holds
  refine Program.Ensures.mono given ?_
  rintro result after holds transaction rfl
  exact holds transaction rfl

end GraphRequest

structure GraphUser where
  request : GraphRequest
  rest : Program (Except LinkError (Option Transaction))
  held : LockTable
  checked : MatchTable

namespace GraphUser

def start (request : GraphRequest) : GraphUser := ⟨request, request.action, request.locks, .empty⟩

def after (system : System) (user : GraphUser) (call : Call)
    (rest : Program (Except LinkError (Option Transaction))) : GraphUser :=
  { user with
    rest
    held := user.held.afterCall call
    checked :=
      match call with
      | .read _ => system.store.tables.matched
      | _ => user.checked }

end GraphUser

structure GraphUsers where
  system : System
  users : List GraphUser

namespace GraphUsers

def held (state : GraphUsers) : Nat → LockTable := LockTable.listed GraphUser.held state.users

inductive Step : GraphUsers → GraphUsers → Prop
  | begin {system : System} {users : List GraphUser} (request : GraphRequest) :
      request.Opens → Step ⟨system, users⟩ ⟨system, users ++ [.start request]⟩
  | call {system after : System} {users : List GraphUser} {index : Nat} {user : GraphUser}
      {call : Call} {next : call.Answer → Program (Except LinkError (Option Transaction))}
      {answer : call.Answer} :
      users[index]? = some user → user.rest = .ask call next →
      System.Answers True system call answer after →
      Step ⟨system, users⟩ ⟨after, users.set index (user.after system call (next answer))⟩
  | commit {system : System} {users : List GraphUser} {index : Nat} {user : GraphUser}
      {transaction : Transaction} (staged : List ScoredEdge) :
      users[index]? = some user → user.rest = .done (.ok (some transaction)) →
      Step ⟨system, users⟩ ⟨system, users.set index (.start (.commit { transaction with staged }))⟩
  | rollback {system : System} {users : List GraphUser} {index : Nat} {user : GraphUser}
      {transaction : Transaction} :
      users[index]? = some user → user.rest = .done (.ok (some transaction)) →
      Step ⟨system, users⟩ ⟨system, users.set index (.start (.rollback transaction))⟩
  | elsewhere {system after : System} {users : List GraphUser} {call : Call} {answer : call.Answer} :
      ¬call.IsLock → System.Answers True system call answer after → Step ⟨system, users⟩ ⟨after, users⟩
  | reindex {system : System} {users : List GraphUser} (index : Index) :
      Step ⟨system, users⟩ ⟨{ system with index }, users⟩

end GraphUsers

structure Transaction.Covers (transaction : Transaction) (members : EntitySet) (table : MatchTable) : Prop where
  fits : transaction.Fits members true
  clusters : ∀ entity ∈ members, ∀ cluster,
    Touched (table.rowsOf cluster) entity → cluster ∈ transaction.clusters

namespace GraphUser

structure Follows (user : GraphUser) (progress : LockProgress) : Prop where
  held : progress.held = user.held
  reached : Program.Reaches LockProgress.Anyhow user.request.action.run ⟨user.request.locks, none⟩ user.rest
    progress
  sound : user.checked.Sound
  seen : ∀ members ids, user.request = .lockMembers members → members.isEmpty = false →
    progress.seen = some ids → ids = user.checked.clustersContaining members

structure Settled (user : GraphUser) (result : Except LinkError (Option Transaction)) : Prop where
  held : user.held = GraphRequest.left result
  covers : ∀ members transaction, user.request = .lockMembers members → result = .ok (some transaction) →
    transaction.Covers members user.checked

variable {user : GraphUser} {progress : LockProgress}

theorem follows_start (request : GraphRequest) : (start request).Follows ⟨request.locks, none⟩ :=
  ⟨rfl, .here _ _, MatchTable.sound_empty, nofun⟩

section Ensured

variable (follows : user.Follows progress)
include follows

theorem Follows.keeps : user.rest.Ensures LockProgress.Anyhow LockProgress.Keeps
    (fun result after => after.held = GraphRequest.left result) progress :=
  follows.reached.ensured user.request.keeps

theorem Follows.acquires {members : EntitySet} (asked : user.request = .lockMembers members)
    (filled : members.isEmpty = false) :
    user.rest.Ensures LockProgress.Anyhow (LockProgress.Allows members) (fun result after =>
      ∀ transaction, result = .ok (some transaction) →
        LockProgress.Acquired members (fun _ => True) (fun _ => True) transaction after) progress := by
  have reached := follows.reached
  rw [asked] at reached
  exact reached.ensured (GraphRequest.ensures_given (ensures_lockMembers True _ _ filled rfl))

theorem Follows.fits {members : EntitySet} (asked : user.request = .lockMembers members) :
    user.rest.Ensures LockProgress.Anyhow LockProgress.Keeps (fun result _ =>
      ∀ transaction, result = .ok (some transaction) → transaction.Fits members true) progress := by
  have reached := follows.reached
  rw [asked] at reached
  refine reached.ensured ((GraphRequest.ensures_given (Action.keeps_lockStable members true
    (Action.stores_clustersContaining members) rfl)).mono ?_)
  exact fun _ _ holds transaction same => (holds transaction same).2

theorem Follows.call {system after : System} {call : Call}
    {next : call.Answer → Program (Except LinkError (Option Transaction))} {answer : call.Answer}
    (asks : user.rest = .ask call next) (sound : system.store.tables.matched.Sound)
    (answered : System.Answers True system call answer after) :
    ∃ later, (user.after system call (next answer)).Follows later := by
  obtain ⟨later, told⟩ := LockProgress.exists_anyhow progress call answer
  refine ⟨later, told.held.trans (congrArg (LockTable.afterCall · call) follows.held), ?_, ?_, ?_⟩
  · have reached := follows.reached
    rw [asks] at reached
    exact reached.snoc told
  · cases call with
    | read => exact sound
    | _ => exact follows.sound
  · intro members ids asked filled seen
    have allowed := follows.acquires asked filled
    rw [asks] at allowed
    obtain ⟨entities, rfl, found⟩ := told.looked seen
    obtain rfl : entities = members := allowed.1
    obtain rfl := eq_of_heq found
    exact answered.1.1

theorem Follows.settled {result : Except LinkError (Option Transaction)}
    (ended : user.rest = .done result) : user.Settled result := by
  constructor
  · have keeps := follows.keeps
    rw [ended] at keeps
    exact follows.held.symm.trans keeps
  · rintro members transaction asked rfl
    have fits := follows.fits asked
    rw [ended] at fits
    refine ⟨fits transaction rfl, ?_⟩
    intro entity listed cluster touched
    have filled : members.isEmpty = false := by
      rw [← Bool.not_eq_true, Std.ExtTreeSet.isEmpty_iff]
      rintro rfl
      exact Std.ExtTreeSet.not_mem_empty listed
    have acquires := follows.acquires asked filled
    rw [ended] at acquires
    obtain ⟨ids, seen, _, known⟩ := (acquires transaction rfl).seen
    rw [follows.seen members ids asked filled seen] at known
    exact known cluster ((MatchTable.mem_clustersContaining follows.sound).mpr ⟨entity, listed, touched⟩)

end Ensured

end GraphUser

namespace GraphUsers

variable {state after : GraphUsers}

structure Orderly (state : GraphUsers) : Prop where
  follows : ∀ user ∈ state.users, ∃ progress, user.Follows progress
  shared : state.system.locks.Shared state.held
  sound : state.system.store.tables.matched.Sound

section Set

variable {system next : System} {users : List GraphUser} {index : Nat} {user later : GraphUser}

theorem Orderly.set (orderly : Orderly ⟨system, users⟩) (found : users[index]? = some user)
    (follows : ∃ progress, later.Follows progress)
    (shared : next.locks.Shared (Function.update (held ⟨system, users⟩) index later.held))
    (sound : next.store.tables.matched.Sound) : Orderly ⟨next, users.set index later⟩ where
  follows := by
    intro other listed
    rcases List.mem_or_eq_of_mem_set listed with listed | rfl
    · exact orderly.follows other listed
    · exact follows
  shared := by rwa [held, LockTable.listed_set (List.getElem?_eq_some_iff.mp found).1]
  sound := sound

/-- A call of one user, and what it leaves in the table. -/
theorem Orderly.call {call : Call} {answer : call.Answer} (orderly : Orderly ⟨system, users⟩)
    (found : users[index]? = some user)
    (own : ∀ members clusters, call = .lock (.release members clusters) → user.held = ⟨members, clusters⟩)
    (answered : System.Answers True system call answer next) :
    next.locks.Shared (Function.update (held ⟨system, users⟩) index (user.held.afterCall call)) := by
  have has : held ⟨system, users⟩ index = user.held := LockTable.listed_eq GraphUser.held found
  by_cases other : call.IsLock
  · cases call with
    | lock request =>
        simp only [System.Answers, System.MayAnswer, System.answer?, Option.map_eq_some_iff,
          Prod.mk.injEq] at answered
        obtain ⟨⟨table, taken, _, rfl⟩, _⟩ := answered
        cases request with
        | take lock =>
            simp only [LockTable.answer?, LockTable.take?, Option.ite_none_left_eq_some,
              Option.some.injEq, Bool.not_eq_true] at taken
            obtain ⟨free, rfl⟩ := taken
            exact has ▸ orderly.shared.take free
        | release members clusters =>
            obtain rfl := Option.some.inj taken
            have mine := own members clusters rfl
            rw [LockTable.afterCall, mine, LockTable.release_self]
            exact orderly.shared.release (has.trans mine)
    | _ => exact other.elim
  · rw [LockProgress.afterCall_of_not_isLock other, ← has, Function.update_eq_self,
      answered.1.fixes.locks fun request same => other (same ▸ trivial)]
    exact orderly.shared

/-- A user ends its transaction, for which it has the locks. -/
theorem Orderly.close (orderly : Orderly ⟨system, users⟩) (found : users[index]? = some user)
    (request : GraphRequest) (own : user.held = request.locks) :
    Orderly ⟨system, users.set index (.start request)⟩ := by
  refine orderly.set found ⟨_, GraphUser.follows_start request⟩ ?_ orderly.sound
  have has : held ⟨system, users⟩ index = request.locks :=
    (LockTable.listed_eq GraphUser.held found).trans own
  rw [GraphUser.start, ← has, Function.update_eq_self]
  exact orderly.shared

end Set

theorem Orderly.step (orderly : state.Orderly) (step : Step state after) : after.Orderly := by
  cases step with
  | @begin system users request opens =>
      refine ⟨?_, ?_, orderly.sound⟩
      · intro user listed
        rcases List.mem_append.mp listed with old | new
        · exact orderly.follows user old
        · rw [List.mem_singleton.mp new]
          exact ⟨_, GraphUser.follows_start request⟩
      · have kept : held ⟨system, users ++ [.start request]⟩ = held ⟨system, users⟩ :=
          LockTable.listed_append opens.locks_eq
        rw [kept]
        exact orderly.shared
  | @call system next users index user call rest answer found asks answered =>
      obtain ⟨progress, follows⟩ := orderly.follows _ (List.mem_of_getElem? found)
      refine orderly.set found (follows.call asks orderly.sound answered) ?_
        (answered.sound_matched orderly.sound)
      refine orderly.call found ?_ answered
      rintro members clusters rfl
      have keeps := follows.keeps
      rw [asks] at keeps
      exact follows.held.symm.trans keeps.1
  | commit staged found ended | rollback found ended =>
      obtain ⟨_, follows⟩ := orderly.follows _ (List.mem_of_getElem? found)
      exact orderly.close found _ (follows.settled ended).held
  | @elsewhere system after users call answer other answered =>
      refine ⟨orderly.follows, ?_, answered.sound_matched orderly.sound⟩
      rw [answered.1.fixes.locks fun request same => other (same ▸ trivial)]
      exact orderly.shared
  | reindex index => exact ⟨orderly.follows, orderly.shared, orderly.sound⟩

variable {start : GraphUsers}

theorem orderly_of_reached (idle : start.users = []) (free : start.system.locks = .empty)
    (sound : start.system.store.tables.matched.Sound) (reached : Relation.ReflTransGen Step start state) :
    state.Orderly := by
  induction reached with
  | refl =>
      refine ⟨by simp [idle], ?_, sound⟩
      have none : start.held = fun _ => .empty := by
        funext index
        simp [held, LockTable.listed, idle]
      rw [free, none]
      exact LockTable.shared_empty
  | tail _ step ih => exact ih.step step

/-- However users take turns and whatever fails: the table holds what they have, and no lock has two of
them. Whoever is answered has what its transaction holds until it ends it, and nothing if it got none. -/
theorem locks_of_reached (idle : start.users = []) (free : start.system.locks = .empty)
    (sound : start.system.store.tables.matched.Sound) (reached : Relation.ReflTransGen Step start state) :
    state.system.locks.Shared state.held ∧
    ∀ user ∈ state.users, ∀ result, user.rest = .done result → user.Settled result := by
  have orderly := orderly_of_reached idle free sound reached
  refine ⟨orderly.shared, fun user listed result ended => ?_⟩
  obtain ⟨_, follows⟩ := orderly.follows user listed
  exact follows.settled ended

/-- A user may make its calls with no other in between. -/
theorem steps_of_reaches {first : GraphUsers} {system after : System} {users : List GraphUser} {index : Nat}
    {user : GraphUser} {rest : Program (Except LinkError (Option Transaction))}
    (reached : Program.Reaches (System.Answers True) user.rest system rest after)
    (found : users[index]? = some user) (steps : Relation.ReflTransGen Step first ⟨system, users⟩) :
    ∃ later, later.rest = rest ∧ later.request = user.request ∧
      Relation.ReflTransGen Step first ⟨after, users.set index later⟩ := by
  generalize same : user.rest = program at reached
  induction reached generalizing user users with
  | here program system =>
      obtain ⟨inside, rfl⟩ := List.getElem?_eq_some_iff.mp found
      exact ⟨_, same, rfl, by rwa [List.set_getElem_self]⟩
  | ask answered _ ih =>
      have inside : index < users.length := (List.getElem?_eq_some_iff.mp found).1
      obtain ⟨later, ended, asked, steps⟩ := ih (List.getElem?_set_self inside)
        (steps.tail (.call found same answered)) rfl
      exact ⟨later, ended, asked, by rwa [List.set_set] at steps⟩

def serve (request : GraphRequest) (system : System) : System :=
  (request.action.run.run System.answer? system).2

theorem steps_serve {first : GraphUsers} {system : System} {users : List GraphUser} (request : GraphRequest)
    (opens : request.Opens) (steps : Relation.ReflTransGen Step first ⟨system, users⟩) :
    ∃ user : GraphUser, user.rest = (request.action.run.run System.answer? system).1 ∧ user.request = request ∧
      Relation.ReflTransGen Step first ⟨serve request system, users ++ [user]⟩ := by
  have reached : Program.Reaches (System.Answers True) request.action.run system _ (serve request system) :=
    (Program.reaches_run System.answer? request.action.run system).mono
      fun _ _ _ _ answered => ⟨System.mayAnswer_of_answer? answered, .inr trivial⟩
  have started : (users ++ [.start request])[users.length]? = some (.start request) :=
    List.getElem?_concat_length
  obtain ⟨user, ended, asked, steps⟩ := steps_of_reaches reached started (steps.tail (.begin request opens))
  refine ⟨user, ended, asked, ?_⟩
  simpa using steps

end GraphUsers

namespace Sample

def handsOut (result : Except LinkError (Option Transaction)) : Bool :=
  match result with
  | .ok (some _) => true
  | _ => false

def paired : System := GraphUsers.serve (.link linker left) start

def reserved : System := GraphUsers.serve (.lockMembers (.ofList [right])) paired

def crowded : System := GraphUsers.serve (.lockMembers (.ofList [left])) reserved

theorem locks_of_crowd : ∃ first second third, let state : GraphUsers := ⟨crowded, [first, second, third]⟩
    Relation.ReflTransGen GraphUsers.Step ⟨start, []⟩ state ∧ state.system.locks.Shared state.held ∧
    first.held = .empty ∧ third.held.holds (.member left) ∧
    ∃ transaction, second.rest = .done (.ok (some transaction)) ∧ second.held = transaction.locks ∧
      transaction.Covers (.ofList [right]) second.checked := by
  have began : Relation.ReflTransGen GraphUsers.Step ⟨start, []⟩ ⟨start, []⟩ := .refl
  obtain ⟨first, linked, _, steps⟩ := GraphUsers.steps_serve (.link linker left) trivial began
  obtain ⟨second, given, asked, steps⟩ :=
    GraphUsers.steps_serve (.lockMembers (.ofList [right])) trivial steps
  obtain ⟨third, _, _, steps⟩ := GraphUsers.steps_serve (.lockMembers (.ofList [left])) trivial steps
  have sound : start.store.tables.matched.Sound := MatchTable.sound_empty
  obtain ⟨shared, settled⟩ := GraphUsers.locks_of_reached rfl rfl sound steps
  simp only [List.nil_append, List.cons_append] at steps shared settled
  have passed : first.rest.result?.any fun result => !handsOut result := by
    rw [linked]
    decide +kernel
  have locked : second.rest.result?.any handsOut := by
    rw [given]
    decide +kernel
  obtain ⟨skipped, kept, ended⟩ := Program.eq_done_of_any passed
  obtain ⟨result, handed, given⟩ := Program.eq_done_of_any locked
  have free : first.held = .empty := by
    rw [(settled first (by simp) _ ended).held]
    match skipped with
    | .ok (some _) => cases kept
    | .ok none | .error _ => rfl
  match result with
  | .error _ | .ok none => cases handed
  | .ok (some transaction) =>
      obtain ⟨held, covers⟩ := settled second (by simp) _ given
      have covered := covers _ transaction asked rfl
      refine ⟨first, second, third, steps, shared, free, ?_, transaction, given, held, covered⟩
      -- The left entity is locked, and neither of the others has it.
      have known : crowded.locks.holds (.member left) := by decide +kernel
      obtain ⟨owner, has⟩ := (shared.all (.member left)).mp known
      obtain ⟨user, found, has⟩ := LockTable.holds_listed.mp has
      match owner with
      | 0 =>
          cases found
          simp [free] at has
      | 1 =>
          cases found
          have other : left ∈ transaction.members := by
            simpa [held, LockTable.holds, GraphRequest.left, Transaction.locks] using has
          rw [covered.fits.members] at other
          exact absurd other (by decide +kernel)
      | 2 =>
          cases found
          exact has

end Sample

end RecordLinkage
