import RecordLinkage.Proofs.Linking.Placement

/-! How a pass gets its locks. It takes what it looked up and looks again under the locks; it keeps them
only if it then finds nothing else, so what it finds last is what it locked. -/

namespace Std.ExtTreeSet

variable {κ : Type} [Ord κ] [TransOrd κ]

theorem eraseMany_eq_foldl (set : ExtTreeSet κ) (keys : List κ) :
    set.eraseMany keys = keys.foldl erase set := by
  obtain ⟨⟨map⟩⟩ := set
  -- The loop carries along that whatever erasing keeps holds of its result.
  let Kept (erased : ExtDTreeMap κ fun _ => Unit) : Prop :=
    ∀ holds : _ → Prop, holds map → (∀ map key, holds map → holds (map.erase key)) → holds erased
  have loop : ∀ (keys : List κ) (start : { erased // Kept erased }),
      (⟨⟨(ForIn.forIn (m := Id) keys start fun key kept => pure (ForInStep.yield ⟨kept.1.erase key,
          fun holds first each => each kept.1 key (kept.2 holds first each)⟩)).run.1⟩⟩ : ExtTreeSet κ) =
        keys.foldl erase ⟨⟨start.1⟩⟩ := by
    intro keys start
    rw [List.forIn_pure_yield_eq_foldl]
    induction keys generalizing start with
    | nil => rfl
    | cons key keys ih => exact ih ⟨start.1.erase key, _⟩
  exact loop keys ⟨map, fun _ first _ => first⟩

theorem mem_eraseMany [LawfulEqOrd κ] {set : ExtTreeSet κ} {keys : List κ} {key : κ} :
    key ∈ set.eraseMany keys ↔ key ∈ set ∧ key ∉ keys := by
  rw [eraseMany_eq_foldl]
  induction keys generalizing set with
  | nil => simp
  | cons first keys ih =>
      rw [List.foldl_cons, ih, mem_erase]
      simp only [Ne, LawfulEqOrd.compare_eq_iff_eq, List.mem_cons, not_or]
      constructor
      · rintro ⟨⟨apart, old⟩, rest⟩
        exact ⟨old, fun same => apart same.symm, rest⟩
      · rintro ⟨old, apart, rest⟩
        exact ⟨⟨fun same => apart same.symm, old⟩, rest⟩

end Std.ExtTreeSet

namespace RecordLinkage

namespace LockTable

theorem ext_holds {table other : LockTable} (same : ∀ lock, table.holds lock ↔ other.holds lock) :
    table = other := by
  obtain ⟨members, clusters⟩ := table
  obtain ⟨members', clusters'⟩ := other
  simp only [mk.injEq]
  constructor
  · apply Std.ExtTreeSet.ext_mem
    intro entity
    simpa only [holds, Std.ExtTreeSet.contains_iff_mem] using same (.member entity)
  · apply Std.ExtTreeSet.ext_mem
    intro cluster
    simpa only [holds, Std.ExtTreeSet.contains_iff_mem] using same (.cluster cluster)

theorem holds_add {table : LockTable} {lock other : Lock} :
    (table.add lock).holds other ↔ lock = other ∨ table.holds other := by
  cases lock <;> cases other <;> simp [add, holds]

theorem holds_release {table : LockTable} {members : EntitySet} {clusters : IdSet} {lock : Lock} :
    (table.release members clusters).holds lock ↔
      table.holds lock ∧ ¬(⟨members, clusters⟩ : LockTable).holds lock := by
  cases lock <;> simp [release, holds, Std.ExtTreeSet.mem_eraseMany]

@[simp] theorem holds_empty (lock : Lock) : LockTable.empty.holds lock = false := by
  cases lock <;> simp [empty, holds]

theorem release_self (members : EntitySet) (clusters : IdSet) :
    LockTable.release ⟨members, clusters⟩ members clusters = .empty := by
  apply ext_holds
  intro lock
  simp [holds_release]

end LockTable

theorem Lock.mem_sequence {members : EntitySet} {clusters : IdSet} {lock : Lock} :
    lock ∈ sequence members clusters ↔ (⟨members, clusters⟩ : LockTable).holds lock := by
  cases lock <;> simp [sequence, LockTable.holds]

theorem Lock.nodup_sequence (members : EntitySet) (clusters : IdSet) :
    (sequence members clusters).Nodup := by
  have apart : ∀ {κ : Type} [Ord κ] [Std.TransOrd κ] [Std.LawfulEqOrd κ] (set : Std.ExtTreeSet κ)
      (lock : κ → Lock), (∀ key other, lock key = lock other → key = other) →
      (set.toList.map lock).Nodup := by
    intro κ _ _ _ set lock injective
    refine set.distinct_toList.map lock ?_
    intro key other distinct same
    exact distinct (injective key other same ▸ Std.ReflOrd.compare_self)
  refine List.nodup_append.mpr ⟨apart members .member ?_, apart clusters .cluster ?_, by simp⟩
  all_goals
    intro key other same
    injection same

structure LockProgress where
  held : LockTable
  seen : Option IdSet

namespace LockProgress

def start : LockProgress := ⟨.empty, none⟩

def Answers (mayFail : Prop) (sees : IdSet → Prop) (draws : Id → Prop) : Answering LockProgress :=
  fun progress call answer after =>
    match call, answer with
    | .read (.clustersContaining _), .ok ids => sees ids ∧ after = ⟨progress.held, some ids⟩
    | .read _, .error _ => mayFail ∧ after = ⟨progress.held, none⟩
    | .drawId, id => draws id ∧ after = ⟨progress.held, none⟩
    | .lock (.take lock), _ => after = ⟨progress.held.add lock, none⟩
    | .lock (.release members clusters), _ => after = ⟨progress.held.release members clusters, none⟩
    | _, _ => after = ⟨progress.held, none⟩

def Allows (members : EntitySet) (progress : LockProgress) : Call → Prop
  | .read (.clustersContaining entities) => entities = members
  | .drawId => True
  | .lock (.take lock) => ¬progress.held.holds lock
  | .lock (.release members clusters) => progress.held = ⟨members, clusters⟩
  | _ => False

def Draws (draws : Id → Prop) : (call : Call) → call.Answer → Prop
  | .drawId, id => draws id
  | _, _ => True

/-- If it does not matter what look-ups see then every answer is possible that draws what may be drawn. -/
theorem exists_answers {draws : Id → Prop} (progress : LockProgress) {call : Call} {answer : call.Answer}
    (drawn : Draws draws call answer) : ∃ later, Answers True (fun _ => True) draws progress call answer later := by
  unfold Answers
  split
  · exact ⟨_, trivial, rfl⟩
  · exact ⟨_, trivial, rfl⟩
  · exact ⟨_, drawn, rfl⟩
  all_goals exact ⟨_, rfl⟩

theorem answers_of_graph {mayFail : Prop} {members : EntitySet} {draws : Id → Prop}
    {graph after : LinkGraph} {progress : LockProgress} {call : Call} {answer : call.Answer}
    (answered : LinkGraph.Answers mayFail graph call answer after)
    (drawn : Draws draws call answer) (allowed : progress.Allows members call) :
    after = graph ∧ ∃ later, LockProgress.Answers mayFail
      (graph.Reads (.clustersContaining members)) draws progress call answer later := by
  cases call with
  | read request =>
      cases request with
      | clustersContaining entities =>
          obtain rfl := show entities = members from allowed
          cases answer with
          | ok ids => exact ⟨answered.1, _, answered.2, rfl⟩
          | error error => exact ⟨answered.1, _, answered.2, rfl⟩
      | _ => exact allowed.elim
  | drawId => exact ⟨answered, _, drawn, rfl⟩
  | lock call => cases call <;> exact ⟨answered, _, rfl⟩
  | _ => exact allowed.elim

structure Acquired (members : EntitySet) (sees : IdSet → Prop) (draws : Id → Prop)
    (transaction : Transaction) (progress : LockProgress) : Prop where
  members : transaction.members = members
  held : progress.held = transaction.locks
  staged : transaction.staged = []
  reserved : ∃ id, transaction.reserved = some id ∧ id ∈ transaction.clusters ∧ draws id
  seen : ∃ ids, progress.seen = some ids ∧ sees ids ∧ ∀ cluster ∈ ids, cluster ∈ transaction.clusters
  wanted : ∀ cluster ∈ transaction.clusters, draws cluster ∨ ∃ ids, sees ids ∧ cluster ∈ ids

def Contended (sees : IdSet → Prop) : Prop :=
  ∃ found again, sees found ∧ sees again ∧ ∃ cluster ∈ again, cluster ∉ found

def Refused (mayFail : Prop) (sees : IdSet → Prop) (error : LinkError) (progress : LockProgress) :
    Prop :=
  progress.held = .empty ∧
    (mayFail ∨ error = .execution (.lockContention ClusterGraph.maxLockAttempts) ∧ Contended sees)

end LockProgress

open LockProgress

section Locks

variable {mayFail : Prop} {sees : IdSet → Prop} {draws : Id → Prop} {members : EntitySet}
  {progress : LockProgress}

theorem ensures_takeLocks {locks : List Lock} {post : Unit → LockProgress → Prop}
    (distinct : locks.Nodup) (free : ∀ lock ∈ locks, ¬progress.held.holds lock)
    (holds : ∀ after, (∀ lock, after.held.holds lock ↔ lock ∈ locks ∨ progress.held.holds lock) →
      post () after) :
    (takeLocks locks).Ensures (Answers mayFail sees draws) (Allows members) post progress := by
  induction locks generalizing progress with
  | nil => exact holds progress (by simp)
  | cons first locks ih =>
      obtain ⟨fresh, distinct⟩ := List.nodup_cons.mp distinct
      refine (Program.ensures_bind _ _ _).mpr ⟨free first (.head _), ?_⟩
      rintro _ after rfl
      refine ih distinct ?_ ?_
      · intro lock listed
        simp only [LockTable.holds_add, not_or]
        exact ⟨fun same => fresh (same ▸ listed), free lock (.tail _ listed)⟩
      · intro after taken
        apply holds after
        intro lock
        simp only [taken, LockTable.holds_add, List.mem_cons]
        constructor
        · rintro (later | same | old)
          · exact .inl (.inr later)
          · exact .inl (.inl same.symm)
          · exact .inr old
        · rintro ((same | later) | old)
          · exact .inr (.inl same.symm)
          · exact .inl later
          · exact .inr (.inr old)

theorem ensures_acquire {clusters : IdSet} {wanted : EntitySet} {post : Unit → LockProgress → Prop}
    (start : progress.held = .empty)
    (holds : ∀ after, after.held = ⟨wanted, clusters⟩ → post () after) :
    (acquire wanted clusters).Ensures (Answers mayFail sees draws) (Allows members) post
      progress := by
  refine ensures_takeLocks (Lock.nodup_sequence _ _) ?_ ?_
  · simp [start]
  · intro after taken
    apply holds after
    apply LockTable.ext_holds
    intro lock
    simp [taken, start, Lock.mem_sequence]

theorem ensures_release {transaction : Transaction} {post : Unit → LockProgress → Prop}
    (held : progress.held = transaction.locks)
    (holds : ∀ after, after.held = .empty → post () after) :
    transaction.release.Ensures (Answers mayFail sees draws) (Allows members) post progress := by
  unfold Transaction.release releaseLocks
  split
  · rename_i none
    simp only [Bool.and_eq_true, Std.ExtTreeSet.isEmpty_iff] at none
    refine holds progress ?_
    rw [held, Transaction.locks, none.1, none.2]
    rfl
  · refine ⟨held, ?_⟩
    rintro _ after rfl
    apply holds
    dsimp only
    rw [held]
    exact LockTable.release_self _ _

theorem ensures_find {post : IdSet → LockProgress → Prop} {refused : LinkError → LockProgress → Prop}
    (filled : members.isEmpty = false)
    (holds : ∀ ids, sees ids → post ids ⟨progress.held, some ids⟩)
    (fails : ∀ error, mayFail → refused error ⟨progress.held, none⟩) :
    (ClusterGraph.clustersContaining members).Ensures (Answers mayFail sees draws)
      (Allows members) refused post progress := by
  simp only [ClusterGraph.clustersContaining, filled, Bool.false_eq_true, if_false]
  refine ⟨rfl, ?_⟩
  intro answer after answered
  cases answer with
  | ok ids =>
      obtain ⟨seen, rfl⟩ := answered
      exact holds ids seen
  | error error =>
      obtain ⟨failed, rfl⟩ := answered
      exact fails error failed

theorem ensures_tryLock (filled : members.isEmpty = false) (start : progress.held = .empty) :
    (ClusterGraph.tryLock members true (ClusterGraph.clustersContaining members)).Ensures
      (Answers mayFail sees draws) (Allows members) (Refused mayFail sees)
      (fun result after =>
        match result with
        | some transaction => Acquired members sees draws transaction after
        | none => after.held = .empty ∧ Contended sees) progress := by
  refine (Action.ensures_bind _ _ _).mpr (ensures_find filled ?_ fun _ failed => ⟨start, .inl failed⟩)
  intro found saw
  refine (Action.ensures_bind _ _ _).mpr ((Action.ensures_lift _ _).mpr ?_)
  refine (Program.ensures_bind _ _ _).mpr ⟨trivial, ?_⟩
  rintro id _ ⟨drawn, rfl⟩
  refine (Program.ensures_pure _ _).mpr ?_
  refine (Action.ensures_bind _ _ _).mpr ((Action.ensures_lift _ _).mpr (ensures_acquire start ?_))
  intro middle taken
  have given : ∀ {post : LockProgress → Prop} {seen : Option IdSet},
      (∀ after, after.held = .empty → post after) →
      (Transaction.rollback ⟨members, found.insertMany [id], some id, []⟩).Ensures
        (Answers mayFail sees draws) (Allows members) (fun _ => post) ⟨middle.held, seen⟩ :=
    fun holds => ensures_release taken holds
  refine (Action.ensures_bind _ _ _).mpr ((Action.ensures_onFailure _ _ _).mpr
    (ensures_find filled ?_ fun _ failed => given fun _ free => ⟨free, .inl failed⟩))
  intro again sawAgain
  split
  · rename_i all
    simp only [List.all_eq_true, Std.ExtTreeSet.mem_toList, Std.ExtTreeSet.contains_iff_mem] at all
    refine (Action.ensures_pure _ _).mpr ⟨rfl, taken, rfl, ⟨id, rfl, ?_, drawn⟩,
      ⟨again, rfl, sawAgain, ?_⟩, ?_⟩
    · simp
    · intro cluster listed
      simp [all cluster listed]
    · intro cluster listed
      simp only [Option.toList_some, Std.ExtTreeSet.mem_insertMany_list, List.contains_cons,
        List.contains_nil, Bool.or_false, beq_iff_eq] at listed
      rcases listed with old | rfl
      · exact .inr ⟨found, saw, old⟩
      · exact .inl drawn
  · rename_i more
    have contended : Contended sees := by
      refine ⟨found, again, saw, sawAgain, ?_⟩
      simpa only [List.all_eq_true, Std.ExtTreeSet.mem_toList, Std.ExtTreeSet.contains_iff_mem,
        Classical.not_forall, exists_prop] using more
    refine (Action.ensures_bind _ _ _).mpr ((Action.ensures_lift _ _).mpr (given ?_))
    intro after free
    exact (Action.ensures_pure _ _).mpr ⟨free, contended⟩

theorem ensures_lockWithin (attempts : Nat) (filled : members.isEmpty = false)
    (start : progress.held = .empty) (before : attempts = 0 → Contended sees) :
    (ClusterGraph.lockWithin attempts members true
      (ClusterGraph.clustersContaining members)).Ensures (Answers mayFail sees draws)
      (Allows members) (Refused mayFail sees) (Acquired members sees draws) progress := by
  induction attempts generalizing progress with
  | zero => exact (Action.ensures_throw _ _).mpr ⟨start, .inr ⟨rfl, before rfl⟩⟩
  | succ attempts ih =>
      refine (Action.ensures_bind _ _ _).mpr ((ensures_tryLock filled start).mono ?_)
      intro result after holds
      cases result with
      | some transaction => exact (Action.ensures_pure _ _).mpr holds
      | none => exact ih holds.1 fun _ => holds.2

variable (mayFail sees draws) in
/-- Either the locks are taken on all that was found last, or none is kept. -/
theorem ensures_lockMembers (filled : members.isEmpty = false) (start : progress.held = .empty) :
    (ClusterGraph.lockMembers members).Ensures (Answers mayFail sees draws) (Allows members)
      (Refused mayFail sees) (Acquired members sees draws) progress :=
  ensures_lockWithin _ filled start (by simp [ClusterGraph.maxLockAttempts])

end Locks

end RecordLinkage
