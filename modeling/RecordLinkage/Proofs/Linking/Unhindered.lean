import RecordLinkage.Proofs.Linking.Matches

/-! A pass that finds every lock free and no call of which fails comes to its end, whatever the store, and gives
back its locks. -/

namespace RecordLinkage

namespace System

def Grants (system : System) : Call → Prop
  | .lock (.take lock) => ¬system.locks.holds lock
  | .host _ => False
  | _ => True

structure HeldBy (held : LockTable) (system : System) (graph : LinkGraph) : Prop where
  depicted : system.Depicts graph
  locks : system.locks = held

variable {system after : System} {graph : LinkGraph} {held : LockTable} {call : Call} {answer : call.Answer}

theorem HeldBy.under {α : Type} {post : α → LinkGraph → Prop} {program : Program α}
    (holds : system.HeldBy held graph)
    (ensured : program.Ensures (LinkGraph.Answers False) (fun _ => held.Allows) post graph) :
    program.Ensures (Answers False) Grants
      (fun value state => ∃ image, state.HeldBy held image ∧ post value image) system := by
  refine ensured.simulate (HeldBy held) holds ?_ ?_
  · intro state image call _ allowed
    cases call with
    | lock | host => exact allowed.elim
    | _ => trivial
  · intro state image call answer after holds allowed answered
    obtain ⟨image', given, depicted⟩ := holds.depicted.answered answered
    have other : ∀ request, call ≠ .lock request := by
      rintro request rfl
      exact allowed
    exact ⟨image', given, depicted, (answered.1.fixes.locks other).trans holds.locks⟩

theorem HeldBy.released {transaction : Transaction} (holds : system.HeldBy transaction.locks graph) :
    transaction.release.Ensures (Answers False) Grants (fun _ after => after.HeldBy .empty graph) system := by
  unfold Transaction.release releaseLocks
  split
  · rename_i none
    simp only [Bool.and_eq_true, Std.ExtTreeSet.isEmpty_iff] at none
    refine (Program.ensures_pure _ _).mpr ⟨holds.depicted, ?_⟩
    rw [holds.locks, Transaction.locks, none.1, none.2]
    rfl
  · refine ⟨trivial, ?_⟩
    rintro _ after ⟨answered, _⟩
    simp only [MayAnswer, answer?, LockTable.answer?, Option.map_some, Option.some.injEq, Prod.mk.injEq,
      true_and] at answered
    subst answered
    refine ⟨holds.depicted.unchanged rfl rfl rfl rfl rfl, ?_⟩
    dsimp only
    rw [holds.locks]
    exact LockTable.release_self _ _

structure Locks (graph : LinkGraph) (draws : Id → Prop) (system : System) (progress : LockProgress) :
    Prop extends system.HeldBy progress.held graph where
  ids : ∀ reading, system.drawn ≤ reading → draws (system.ids reading)

theorem Locks.answered {draws : Id → Prop} {members : EntitySet} {progress : LockProgress}
    (locks : Locks graph draws system progress) (allowed : progress.Allows members call)
    (answered : Answers False system call answer after) :
    ∃ later, LockProgress.Answers False (graph.Reads (.clustersContaining members)) draws progress call answer later ∧
      Locks graph draws after later := by
  obtain ⟨image, given, depicted⟩ := locks.depicted.answered answered
  obtain ⟨possible, succeeds⟩ := answered
  cases call with
  | drawId =>
      simp only [MayAnswer, answer?, Option.some.injEq, Prod.mk.injEq] at possible
      obtain ⟨rfl, rfl⟩ := possible
      obtain ⟨rfl, later, told⟩ := LockProgress.answers_of_graph given (locks.ids _ (Nat.le_refl _)) allowed
      obtain ⟨_, rfl⟩ := told
      exact ⟨_, ⟨locks.ids _ (Nat.le_refl _), rfl⟩, ⟨depicted, locks.locks⟩,
        fun reading later => locks.ids reading (Nat.le_of_succ_le later)⟩
  | lock request =>
      obtain ⟨rfl, later, told⟩ := LockProgress.answers_of_graph given trivial allowed
      simp only [MayAnswer, answer?, Option.map_eq_some_iff, Prod.mk.injEq] at possible
      obtain ⟨table, taken, _, rfl⟩ := possible
      rw [locks.locks] at taken
      refine ⟨later, told, ⟨depicted, ?_⟩, locks.ids⟩
      cases request with
      | take lock =>
          obtain rfl := told
          simp only [LockTable.answer?, LockTable.take?, Option.ite_none_left_eq_some,
            Option.some.injEq] at taken
          exact taken.2.symm
      | release members clusters =>
          obtain rfl := told
          simp only [LockTable.answer?, Option.some.injEq] at taken
          exact taken.symm
  | read request =>
      obtain ⟨rfl, later, told⟩ :=
        @LockProgress.answers_of_graph False members draws _ _ progress (.read request) answer given trivial allowed
      cases request with
      | clustersContaining =>
          cases answer with
          | ok ids =>
              obtain ⟨sees, rfl⟩ := told
              obtain ⟨_, rfl⟩ := possible
              exact ⟨_, ⟨sees, rfl⟩, ⟨depicted, locks.locks⟩, locks.ids⟩
          | error => exact (succeeds.resolve_left id).elim
      | _ => exact allowed.elim
  | _ => exact allowed.elim

theorem Locks.grants {draws : Id → Prop} {members : EntitySet} {progress : LockProgress}
    (locks : Locks graph draws system progress) (allowed : progress.Allows members call) : system.Grants call := by
  cases call with
  | host => exact allowed.elim
  | lock request =>
      cases request with
      | take lock =>
          change ¬system.locks.holds lock
          rw [locks.locks]
          exact allowed
      | release => trivial
  | _ => trivial

end System

namespace Prepared

variable {prepared : Prepared} {graph : LinkGraph} {system : System} {draws : Id → Prop}

structure Settles (prepared : Prepared) (draws : Id → Prop) (graph : LinkGraph) (outcome : LinkOutcome)
    (held : LockTable) (reserved : Id) (snapshot : Linking.Snapshot) (after : LinkGraph) : Prop where
  drawn : draws reserved
  reports : prepared.Reports reserved snapshot outcome
  places : prepared.Places held reserved snapshot graph after
  within : graph.Within held after
  members : held.members = prepared.members
  clusters : ∀ cluster ∈ held.clusters, draws cluster ∨ ∃ entity ∈ prepared.members, graph.Touches cluster entity

/-- The part of a pass under its locks, when they are all that is locked. -/
theorem ensures_settle_unhindered {transaction : Transaction} {progress : LockProgress} (sound : prepared.Sound)
    (holding : system.HeldBy transaction.locks graph)
    (acquired : LockProgress.Acquired prepared.members (graph.Reads (.clustersContaining prepared.members)) draws
      transaction progress) :
    (prepared.settle transaction).Ensures (System.Answers False) System.Grants (fun _ _ => False)
      (fun outcome state => ∃ after, state.HeldBy .empty after ∧ ∃ held reserved snapshot,
        prepared.Settles draws graph outcome held reserved snapshot after) system := by
  obtain ⟨reserved, own, listed, drawn⟩ := acquired.reserved
  obtain ⟨ids, _, saw, known⟩ := acquired.seen
  have closed : graph.Closed transaction.locks := by
    intro entity member cluster touches
    rw [Transaction.locks, acquired.members] at member
    exact known cluster ((saw cluster).mpr ⟨entity, member, touches⟩)
  have clusters : ∀ cluster ∈ transaction.locks.clusters,
      draws cluster ∨ ∃ entity ∈ prepared.members, graph.Touches cluster entity := by
    intro cluster listed
    rcases acquired.wanted cluster listed with drawn | ⟨ids, saw, known⟩
    · exact .inl drawn
    · exact .inr ((saw cluster).mp known)
  have places : Action.Under False transaction.locks
      (fun outcome after => ∃ snapshot, prepared.Reports reserved snapshot outcome ∧
        prepared.Places transaction.locks reserved snapshot graph after)
      (Linking.place transaction prepared.focal prepared.scored prepared.positive) graph :=
    Action.under_place sound ⟨acquired.members, own, listed, acquired.staged⟩ closed
      fun snapshot _ _ reports places => ⟨snapshot, reports, places⟩
  rw [prepared.settle_eq]
  refine (Action.ensures_thenAlways _ _ _).mpr
    ((holding.under (Program.Ensures.within places closed)).mono ?_)
  rintro (error | outcome) state ⟨after, holding, placed, within⟩
  · exact placed.elim
  · obtain ⟨snapshot, reports, places⟩ := placed
    refine holding.released.mono fun _ state free => ?_
    exact ⟨after, free, transaction.locks, reserved, snapshot, drawn, reports, places, within,
      acquired.members, clusters⟩

theorem ensures_unhindered (sound : prepared.Sound) (free : system.HeldBy .empty graph)
    (ids : ∀ reading, system.drawn ≤ reading → draws (system.ids reading)) :
    prepared.finish.Ensures (System.Answers False) System.Grants (fun _ _ => False)
      (fun outcome state => ∃ after, state.HeldBy .empty after ∧ ∃ held reserved snapshot,
        prepared.Settles draws graph outcome held reserved snapshot after) system := by
  have start : System.Locks graph draws system .start := ⟨free, ids⟩
  have locked := (ensures_lockMembers False (graph.Reads (.clustersContaining prepared.members)) draws
    sound.filled rfl).simulate (System.Locks graph draws) start
    (fun _ _ _ locks allowed => locks.grants allowed)
    (fun _ _ _ _ _ locks allowed answered => locks.answered allowed answered)
  refine (Action.ensures_bind _ _ _).mpr (locked.mono ?_)
  rintro (error | transaction) state ⟨progress, locks, ended⟩
  · -- Two look-ups in one graph find the same.
    obtain ⟨_, failed | ⟨_, found, again, saw, sawAgain, cluster, listed, missing⟩⟩ := ended
    · exact failed
    · exact missing ((saw cluster).mpr ((sawAgain cluster).mp listed))
  · exact ensures_settle_unhindered sound (ended.held ▸ locks.toHeldBy) ended

end Prepared

end RecordLinkage
