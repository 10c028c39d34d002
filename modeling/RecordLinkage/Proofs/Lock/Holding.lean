import RecordLinkage.Proofs.Linking.Joins
import RecordLinkage.Proofs.Linking.Operations
import RecordLinkage.Proofs.Lock.Shares
import RecordLinkage.Proofs.Program.Reaches

/-! What each operation on the graph does with locks, whatever it is answered. It takes none that it has and
gives back all that it has; if it hands out a transaction then it has what the transaction holds, and
otherwise it has none left. -/

namespace RecordLinkage

namespace Call

def IsLock : Call → Prop
  | .lock _ => True
  | _ => False

def Stores : Call → Prop
  | .read _ | .write _ | .index _ | .now | .tick => True
  | _ => False

theorem Looks.not_isLock {call : Call} (looks : call.Looks) : ¬call.IsLock := by
  cases call with
  | lock => exact looks.elim
  | _ => exact id

theorem Joins.stores {cluster : Id} {entities : List EntityKey} {call : Call}
    (joins : call.Joins cluster entities) : call.Stores := by
  cases call with
  | read | write | index | now | tick => trivial
  | _ => exact joins.elim

theorem Stores.not_isLock {call : Call} (stores : call.Stores) : ¬call.IsLock := by
  cases call with
  | lock => exact stores.elim
  | _ => exact id

end Call

namespace Action

variable {α : Type}

abbrev Stores (post : α → Prop) (action : Action α) : Prop := action.Asks True Call.Stores post

theorem stores_clustersContaining (entities : EntitySet) :
    (ClusterGraph.clustersContaining entities).Stores fun _ => True :=
  asks_clustersContaining (fun _ => trivial) entities

theorem stores_clustersTouchingSet (set : Id) :
    (ClusterGraph.clustersTouchingSet set).Stores fun _ => True :=
  asks_bind (asks_read trivial) fun _ _ => asks_pure trivial

theorem stores_place (transaction : Transaction) (focal : EntityKey) (scored : Scored)
    (positive : PairSet) :
    (Linking.place transaction focal scored positive).Stores fun _ => True := by
  unfold Linking.place
  refine asks_bind (asks_pointer trivial) fun previous _ => ?_
  refine asks_bind (asks_deleteNeighborhoodIn (fun _ => trivial) trivial _) fun _ _ => ?_
  refine asks_bind (stores_clustersContaining _) fun ids _ => ?_
  refine asks_bind (asks_clusters (fun _ => trivial) ids) fun snapshot _ => ?_
  refine asks_bind (asks_choose _ _ _ _) fun chosen _ => ?_
  dsimp only
  split
  · exact asks_throw _
  · refine asks_bind (asks_flush trivial fun _ => trivial) fun _ _ => ?_
    have joins : ∀ {cluster : Id} {entities : List EntityKey} {β : Type} {action : Action β},
        action.Relays (Call.Joins cluster entities) → action.Stores fun _ => True :=
      fun relays => (asks_of_relays relays).allow fun _ => Call.Joins.stores
    refine asks_bind (joins (relays_moveAll _ _ _ _)) fun _ _ => ?_
    exact asks_bind (joins (relays_join _ [] _)) fun _ _ => asks_pure trivial

end Action

namespace LockTable

def afterCall (held : LockTable) : Call → LockTable
  | .lock (.take lock) => held.add lock
  | .lock (.release members clusters) => held.release members clusters
  | _ => held

end LockTable

namespace LockProgress

abbrev Anyhow : Answering LockProgress := Answers True (fun _ => True) (fun _ => True)

def Keeps (progress : LockProgress) : Call → Prop
  | .lock (.take lock) => ¬progress.held.holds lock
  | .lock (.release members clusters) => progress.held = ⟨members, clusters⟩
  | _ => True

theorem Allows.keeps {members : EntitySet} {progress : LockProgress} {call : Call}
    (allowed : progress.Allows members call) : progress.Keeps call := by
  cases call with
  | lock request => cases request <;> exact allowed
  | _ => trivial

theorem keeps_of_not_isLock {progress : LockProgress} {call : Call} (other : ¬call.IsLock) :
    progress.Keeps call := by
  cases call with
  | lock => exact absurd trivial other
  | _ => trivial

theorem afterCall_of_not_isLock {held : LockTable} {call : Call} (other : ¬call.IsLock) :
    held.afterCall call = held := by
  cases call with
  | lock => exact absurd trivial other
  | _ => rfl

theorem Answers.held {mayFail : Prop} {sees : IdSet → Prop} {draws : Id → Prop}
    {progress later : LockProgress} {call : Call} {answer : call.Answer}
    (answered : Answers mayFail sees draws progress call answer later) :
    later.held = progress.held.afterCall call := by
  unfold Answers at answered
  split at answered
  · exact answered.2 ▸ rfl
  · exact answered.2 ▸ rfl
  · exact answered.2 ▸ rfl
  · exact answered ▸ rfl
  · exact answered ▸ rfl
  · rename_i take release
    obtain rfl := answered
    cases call with
    | lock request =>
        cases request with
        | take lock => exact (take lock answer rfl .rfl).elim
        | release members clusters => exact (release members clusters answer rfl .rfl).elim
    | _ => rfl

/-- A caller saw something if its last call was a look-up. -/
theorem Answers.looked {mayFail : Prop} {sees : IdSet → Prop} {draws : Id → Prop}
    {progress later : LockProgress} {call : Call} {answer : call.Answer} {ids : IdSet}
    (answered : Answers mayFail sees draws progress call answer later) (seen : later.seen = some ids) :
    ∃ entities, call = .read (.clustersContaining entities) ∧
      answer ≍ (Except.ok ids : Except LinkError IdSet) := by
  unfold Answers at answered
  split at answered
  · obtain ⟨_, rfl⟩ := answered
    exact ⟨_, rfl, heq_of_eq (congrArg Except.ok (Option.some.inj seen))⟩
  · exact nomatch answered.2 ▸ seen
  · exact nomatch answered.2 ▸ seen
  · exact nomatch answered ▸ seen
  · exact nomatch answered ▸ seen
  · exact nomatch answered ▸ seen

theorem exists_anyhow (progress : LockProgress) (call : Call) (answer : call.Answer) :
    ∃ later, Anyhow progress call answer later :=
  exists_answers progress (by cases call <;> trivial)

end LockProgress

open LockProgress

structure Transaction.Fits (transaction : Transaction) (members : EntitySet) (reserve : Bool) : Prop where
  members : transaction.members = members
  reserved : reserve → ∃ id, transaction.reserved = some id ∧ id ∈ transaction.clusters

namespace Program

variable {progress : LockProgress}

theorem keeps_acquire {members : EntitySet} {clusters : IdSet} {post : Unit → LockProgress → Prop}
    (start : progress.held = .empty)
    (holds : ∀ after, after.held = ⟨members, clusters⟩ → post () after) :
    (acquire members clusters).Ensures Anyhow Keeps post progress := by
  have acquires : (acquire members clusters).Ensures Anyhow (Allows members) post progress :=
    ensures_acquire start holds
  exact acquires.allow fun _ _ => Allows.keeps

theorem keeps_release {transaction : Transaction} {post : Unit → LockProgress → Prop}
    (held : progress.held = transaction.locks) (holds : ∀ after, after.held = .empty → post () after) :
    transaction.release.Ensures Anyhow Keeps post progress := by
  have releases : transaction.release.Ensures Anyhow (Allows ∅) post progress := ensures_release held holds
  exact releases.allow fun _ _ => Allows.keeps

theorem keeps_reserveId (reserve : Bool) :
    (ClusterGraph.reserveId reserve).Ensures Anyhow Keeps
      (fun reserved after => (reserve → reserved.isSome) ∧ after.held = progress.held) progress := by
  unfold ClusterGraph.reserveId
  split
  · refine ⟨trivial, ?_⟩
    intro id after answered
    exact ⟨fun _ => rfl, answered.held⟩
  · rename_i none
    exact ⟨fun reserve => absurd reserve none, rfl⟩

end Program

namespace Action

variable {progress : LockProgress}

abbrev Keeps (post : α → LockProgress → Prop) (action : Action α) (progress : LockProgress) : Prop :=
  action.Ensures Anyhow LockProgress.Keeps (fun _ after => after.held = .empty) post progress

/-- Without a call for a lock a caller has what it had. -/
theorem keeps_of_asks {allowed : Call → Prop} {known : α → Prop} {refused : LinkError → LockProgress → Prop}
    {post : α → LockProgress → Prop} {action : Action α} (asks : action.Asks True allowed known)
    (other : ∀ call, allowed call → ¬call.IsLock)
    (fails : ∀ error after, after.held = progress.held → refused error after)
    (holds : ∀ value after, known value → after.held = progress.held → post value after) :
    action.Ensures Anyhow LockProgress.Keeps refused post progress := by
  have kept : action.Ensures Anyhow LockProgress.Keeps (fun _ after => after.held = progress.held)
      (fun value after => after.held = progress.held ∧ known value) progress := by
    refine asks.ensures (LockProgress.held · = progress.held) rfl
      (fun _ call _ fits => keeps_of_not_isLock (other call fits)) ?_
    intro state call answer after same fits answered
    rw [answered.held, afterCall_of_not_isLock (other call fits), same]
  exact (kept.refuse fails).mono fun value after both => holds value after both.2 both.1

theorem keeps_tryLock (members : EntitySet) (reserve : Bool) {find : Action IdSet}
    (finds : find.Stores fun _ => True) (start : progress.held = .empty) :
    (ClusterGraph.tryLock members reserve find).Keeps
      (fun
        | some transaction, after => after.held = transaction.locks ∧ transaction.Fits members reserve
        | none, after => after.held = .empty) progress := by
  have other : ∀ call : Call, call.Stores → ¬call.IsLock := fun _ => Call.Stores.not_isLock
  refine (ensures_bind _ _ _).mpr (keeps_of_asks finds other (fun _ _ same => same.trans start) ?_)
  intro found middle _ same
  refine (ensures_bind _ _ _).mpr ((ensures_lift _ _).mpr ((Program.keeps_reserveId reserve).mono ?_))
  rintro reserved after ⟨fresh, unchanged⟩
  have free : after.held = .empty := unchanged.trans (same.trans start)
  refine (ensures_bind _ _ _).mpr ((ensures_lift _ _).mpr (Program.keeps_acquire free ?_))
  intro taken held
  have given : ∀ {post : LockProgress → Prop} {after : LockProgress}, after.held = taken.held →
      (∀ after, after.held = .empty → post after) →
      (Transaction.rollback ⟨members, found.insertMany reserved.toList, reserved, []⟩).Ensures Anyhow
        LockProgress.Keeps (fun _ => post) after :=
    fun same holds => Program.keeps_release (same.trans held) holds
  refine (ensures_bind _ _ _).mpr ((ensures_onFailure _ _ _).mpr (keeps_of_asks finds other ?_ ?_))
  · exact fun _ after same => given same fun _ => id
  · intro again after _ same
    split
    · refine (ensures_pure _ _).mpr ⟨same.trans held, rfl, fun reserve => ?_⟩
      obtain ⟨id, rfl⟩ := Option.isSome_iff_exists.mp (fresh reserve)
      exact ⟨id, rfl, by simp⟩
    · refine (ensures_bind _ _ _).mpr ((ensures_lift _ _).mpr (given same ?_))
      exact fun _ free => (ensures_pure _ _).mpr free

theorem keeps_lockStable (members : EntitySet) (reserve : Bool) {find : Action IdSet}
    (finds : find.Stores fun _ => True) (start : progress.held = .empty) :
    (ClusterGraph.lockStable members reserve find).Keeps (fun transaction after =>
      after.held = transaction.locks ∧ transaction.Fits members reserve) progress := by
  unfold ClusterGraph.lockStable
  induction ClusterGraph.maxLockAttempts generalizing progress with
  | zero => exact (ensures_throw _ _).mpr start
  | succ attempts ih =>
      refine (ensures_bind _ _ _).mpr ((keeps_tryLock members reserve finds start).mono ?_)
      intro result after holds
      cases result with
      | some transaction => exact (ensures_pure _ _).mpr holds
      | none => exact ih holds

theorem keeps_commit {transaction : Transaction} (held : progress.held = transaction.locks) :
    transaction.commit.Keeps (fun _ after => after.held = .empty) progress := by
  refine (ensures_thenAlways _ _ _).mpr ?_
  have releases : ∀ (result : Except LinkError Nat) (after : LockProgress), after.held = progress.held →
      transaction.release.Ensures Anyhow LockProgress.Keeps (fun _ => outcome
        (fun _ after => after.held = .empty) (fun _ after => after.held = .empty) result) after := by
    intro result after same
    refine Program.keeps_release (same.trans held) fun _ free => ?_
    cases result <;> exact free
  have flushes : transaction.flush.Stores fun _ => True := asks_flush trivial fun _ => trivial
  refine Program.Ensures.mono (keeps_of_asks flushes (fun _ => Call.Stores.not_isLock) (fun _ _ => id)
    fun _ _ _ => id) ?_
  intro result after same
  cases result <;> exact releases _ after same

theorem keeps_deleteHolding {transaction : Transaction} {deletion : Action Nat}
    (deletes : deletion.Stores fun _ => True) (held : progress.held = transaction.locks) :
    (ClusterGraph.deleteHolding transaction deletion).Keeps (fun _ after => after.held = .empty)
      progress := by
  refine (ensures_bind _ _ _).mpr ((ensures_onFailure _ _ _).mpr
    (keeps_of_asks deletes (fun _ => Call.Stores.not_isLock) ?_ ?_))
  · exact fun _ _ same => Program.keeps_release (same.trans held) fun _ => id
  · intro rows after _ same
    exact (ensures_bind _ _ _).mpr ((keeps_commit (same.trans held)).mono fun _ _ free => free)

/-- A deletion under locks, whatever it locks and deletes. -/
theorem keeps_deletion (members : EntitySet) {find : Action IdSet} (finds : find.Stores fun _ => True)
    {deletion : Transaction → Action Nat} (deletes : ∀ transaction, (deletion transaction).Stores fun _ => True)
    (start : progress.held = .empty) :
    Keeps (fun _ after => after.held = .empty) (do
      let transaction ← ClusterGraph.lockStable members false find
      ClusterGraph.deleteHolding transaction (deletion transaction)) progress := by
  refine (ensures_bind _ _ _).mpr ((keeps_lockStable members false finds start).mono ?_)
  exact fun transaction _ holds => keeps_deleteHolding (deletes transaction) holds.1

theorem keeps_deleteNeighborhoods (set : Id) (keys : IdSet) (start : progress.held = .empty) :
    (ClusterGraph.deleteNeighborhoods set keys).Keeps (fun _ after => after.held = .empty) progress := by
  unfold ClusterGraph.deleteNeighborhoods
  split
  · exact (ensures_pure _ _).mpr start
  · exact keeps_deletion _ (stores_clustersContaining _) (fun _ => asks_deleteRows trivial) start

theorem keeps_settle (prepared : Prepared) {transaction : Transaction}
    (held : progress.held = transaction.locks) :
    (prepared.settle transaction).Keeps (fun _ after => after.held = .empty) progress := by
  rw [prepared.settle_eq]
  refine (ensures_thenAlways _ _ _).mpr ?_
  have places := stores_place transaction prepared.focal prepared.scored prepared.positive
  refine Program.Ensures.mono (keeps_of_asks places (fun _ => Call.Stores.not_isLock) (fun _ _ => id)
    fun _ _ _ => id) ?_
  intro result after same
  have free : after.held = transaction.locks := by cases result <;> exact Eq.trans same held
  refine Program.keeps_release free fun _ none => ?_
  cases result <;> exact none

theorem keeps_link (linker : Linker) (focal : EntityKey) (start : progress.held = .empty) :
    (linker.link focal).Keeps (fun _ after => after.held = .empty) progress := by
  rw [linker.link_eq]
  refine (ensures_bind _ _ _).mpr (keeps_of_asks (linker.looks_prepare focal)
    (fun _ => Call.Looks.not_isLock) (fun _ _ same => same.trans start) ?_)
  intro found after _ same
  cases found with
  | inl outcome => exact (ensures_pure _ _).mpr (same.trans start)
  | inr prepared =>
      refine (ensures_bind _ _ _).mpr ((keeps_lockStable _ true (stores_clustersContaining _)
        (same.trans start)).mono ?_)
      exact fun _ _ holds => keeps_settle prepared holds.1

end Action

namespace LockTable

def beside (others own : LockTable) : Nat → LockTable
  | 0 => others
  | 1 => own
  | _ => .empty

theorem update_beside (others own later : LockTable) :
    Function.update (beside others own) 1 later = beside others later := by
  funext owner
  match owner with
  | 0 | 1 | _ + 2 => rfl

theorem shared_beside_empty (others : LockTable) : others.Shared (beside others .empty) where
  all lock := by
    constructor
    · exact fun has => ⟨0, has⟩
    · rintro ⟨owner, has⟩
      match owner with
      | 0 => exact has
      | 1 | _ + 2 => simp [beside] at has
  apart first second lock := by
    match first, second with
    | 0, 0 => exact fun _ _ => rfl
    | 1, _ | _ + 2, _ | 0, 1 | 0, _ + 2 => simp [beside]

theorem Shared.eq_of_none {table others : LockTable} (shared : table.Shared (beside others .empty)) :
    table = others := by
  apply ext_holds
  intro lock
  rw [shared.all, ← (shared_beside_empty others).all]

end LockTable

namespace System

variable {after : System}

/-- The locks of the system beside those of others, when a caller that keeps to its own makes a call. -/
theorem shared_of_answered {system : System} {call : Call} {answer : call.Answer} {others : LockTable}
    {progress : LockProgress} (shared : system.locks.Shared (LockTable.beside others progress.held))
    (keeps : progress.Keeps call) (answered : system.MayAnswer call answer after) :
    after.locks.Shared (LockTable.beside others (progress.held.afterCall call)) := by
  by_cases locks : ∃ request, call = .lock request
  · obtain ⟨request, rfl⟩ := locks
    simp only [MayAnswer, answer?, Option.map_eq_some_iff, Prod.mk.injEq] at answered
    obtain ⟨table, given, _, rfl⟩ := answered
    cases request with
    | take lock =>
        simp only [LockTable.answer?, LockTable.take?, Option.ite_none_left_eq_some,
          Bool.not_eq_true, Option.some.injEq] at given
        obtain ⟨free, rfl⟩ := given
        have taken := @LockTable.Shared.take _ _ 1 _ shared free
        rwa [LockTable.update_beside] at taken
    | release members clusters =>
        obtain rfl := Option.some.inj given
        have released := @LockTable.Shared.release _ _ 1 _ _ shared keeps
        rw [LockTable.update_beside] at released
        have none : progress.held.release members clusters = .empty :=
          (congrArg (·.release members clusters) keeps).trans (LockTable.release_self _ _)
        simpa only [LockTable.afterCall, none] using released
  · have other : ¬call.IsLock := by
      cases call with
      | lock request => exact absurd ⟨request, rfl⟩ locks
      | _ => exact id
    rw [answered.fixes.locks fun request same => locks ⟨request, same⟩,
      LockProgress.afterCall_of_not_isLock other]
    exact shared

/-- A pass gives back all its locks, however it ends. -/
theorem locks_of_link {σ : Type} {answers : Answering σ} {linker : Linker} {focal : EntityKey}
    {result : Except LinkError LinkOutcome} {first last : σ} (system : σ → System)
    (possible : ∀ state call answer after, answers state call answer after →
      (system state).MayAnswer call answer (system after))
    (run : Program.Runs answers (linker.link focal).run first result last) :
    (system last).locks = (system first).locks := by
  have keeps : (linker.link focal).Keeps (fun _ after => after.held = .empty) .start :=
    Action.keeps_link linker focal rfl
  have related := run.simulated keeps
    (fun state progress =>
      (system state).locks.Shared (LockTable.beside (system first).locks progress.held))
    (LockTable.shared_beside_empty (system first).locks) ?_
  · obtain ⟨progress, shared, free⟩ := related
    have none : progress.held = .empty := by cases result <;> exact free
    exact LockTable.Shared.eq_of_none (none ▸ shared)
  · intro state progress call answer later shared keeps answered
    obtain ⟨next, given⟩ := LockProgress.exists_anyhow progress call answer
    exact ⟨next, given, given.held ▸ shared_of_answered shared keeps (possible _ _ _ _ answered)⟩

end System

end RecordLinkage
