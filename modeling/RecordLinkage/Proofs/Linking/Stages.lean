import RecordLinkage.Proofs.Linking.Passes

/-! What a pass keeps to at each of its stages while other passes move, and what it does to the locks of
others while it tries to get its own. -/

namespace RecordLinkage

namespace LockTable

theorem apart_iff {held other : LockTable} :
    held.Apart other ↔ ∀ lock, held.holds lock → ¬other.holds lock := by
  constructor
  · intro apart lock inside
    cases lock with
    | member entity =>
        simp only [holds, Std.ExtTreeSet.contains_iff_mem] at inside ⊢
        exact apart.members entity inside
    | cluster cluster =>
        simp only [holds, Std.ExtTreeSet.contains_iff_mem] at inside ⊢
        exact apart.clusters cluster inside
  · intro apart
    constructor
    · intro entity inside foreign
      exact apart (.member entity) (Std.ExtTreeSet.contains_iff_mem.mpr inside)
        (Std.ExtTreeSet.contains_iff_mem.mpr foreign)
    · intro cluster inside foreign
      exact apart (.cluster cluster) (Std.ExtTreeSet.contains_iff_mem.mpr inside)
        (Std.ExtTreeSet.contains_iff_mem.mpr foreign)

theorem apart_empty (held : LockTable) : held.Apart .empty := by
  rw [apart_iff]
  simp

end LockTable

namespace Stage

abbrev Tries (prepared : Prepared) (rest : Action Transaction) (progress : LockProgress) : Prop :=
  rest.Ensures (LockProgress.Answers False (fun _ => True) (fun _ => True))
    (LockProgress.Allows prepared.members) (LockProgress.Refused False (fun _ => True))
    (LockProgress.Acquired prepared.members (fun _ => True) (fun _ => True)) progress

def Keeps (graph serial : LinkGraph) (held : LockTable) : Stage → Prop
  | reading rest => held = .empty ∧ rest.Looks False Linking.Found
  | locking prepared rest => prepared.Sound ∧ ∃ progress : LockProgress, progress.held = held ∧
      Tries prepared rest progress
  | placing prepared transaction rest => prepared.Sound ∧ transaction.members = prepared.members ∧
      transaction.locks = held ∧ graph.Closed held ∧
      ∃ body : Action LinkOutcome, rest = body.thenAlways transaction.release ∧
        Action.Under False held (fun outcome after => outcome.isSkipped = false ∧
          after.Matches (fun lock => held.holds lock) serial) body graph
  | ended result => held = .empty ∧ ∀ error, result = .error error → ¬error.IsNotLocked

variable {graph serial after : LinkGraph} {held other : LockTable} {stage : Stage}

theorem Keeps.later (keeps : stage.Keeps graph serial held) (within : graph.Within other after)
    (apart : held.Apart other) : stage.Keeps after serial held := by
  cases stage with
  | reading => exact keeps
  | locking => exact keeps
  | placing prepared transaction rest =>
      obtain ⟨sound, members, locks, closed, body, rfl, under⟩ := keeps
      have alike := within.alike apart closed
      refine ⟨sound, members, locks, alike.closedOther, body, rfl, ?_⟩
      refine (Program.Ensures.alike under alike).mono ?_
      rintro result state ⟨image, alike, ended⟩
      cases result with
      | error error => exact ended
      | ok outcome => exact ⟨ended.1, ended.2.alike alike⟩
  | ended => exact keeps

theorem Keeps.laterSerial (keeps : stage.Keeps graph serial held)
    (within : serial.Within other after) (apart : held.Apart other) :
    stage.Keeps graph after held := by
  cases stage with
  | reading => exact keeps
  | locking => exact keeps
  | placing prepared transaction rest =>
      obtain ⟨sound, members, locks, closed, body, rfl, under⟩ := keeps
      refine ⟨sound, members, locks, closed, body, rfl, under.mono ?_⟩
      rintro outcome state ⟨links, same⟩
      exact ⟨links, (same.symm.later within (LockTable.apart_iff.mp apart)).symm⟩
  | ended => exact keeps

/-- In a serial graph of the passes so far, a pass that has its locks leads to the end of it. -/
theorem Keeps.touches {system : System} (depicted : system.Depicts graph)
    (keeps : stage.Keeps graph serial held) (placing : stage.IsPlacing) {cluster : Id}
    {entity : EntityKey} (inside : cluster ∈ held.clusters) (touches : serial.Touches cluster entity) :
    graph.Touches cluster entity ∨ entity ∈ held.members := by
  cases stage with
  | placing prepared transaction rest =>
      obtain ⟨_, _, _, closed, body, rfl, under⟩ := keeps
      have holds : System.HeldBy held { system with
          store := .memory system.store.tables, locks := held } graph :=
        ⟨depicted.unchanged rfl rfl rfl rfl rfl, rfl⟩
      obtain ⟨result, final, _, ⟨image, _, ended, within⟩, _⟩ := Program.Ensures.run_eq
        (System.ensures_of_memory ⟨_, rfl⟩ (holds.under (Program.Ensures.within under closed)))
      cases result with
      | error error => exact ended.elim
      | ok outcome =>
          refine within.touches cluster entity ?_
          rwa [LinkGraph.Touches,
            ended.2.scores cluster (Std.ExtTreeSet.contains_iff_mem.mpr inside)]
  | _ => exact placing.elim

end Stage

namespace LockProgress

structure Advances (graph : LinkGraph) (members : EntitySet) (system after : System)
    (progress later : LockProgress) : Prop where
  depicted : after.Depicts graph
  seen : ∀ ids, later.seen = some ids →
    graph.Reads (.clustersContaining members) ids ∧ later.held = progress.held
  locked : ∀ lock, later.held.holds lock → after.locks.holds lock
  others : ∀ other : LockTable, other.Apart progress.held →
    (∀ lock, other.holds lock → system.locks.holds lock) →
    other.Apart later.held ∧ ∀ lock, other.holds lock → after.locks.holds lock

theorem advances {members : EntitySet} {progress : LockProgress} {graph : LinkGraph}
    {system after : System} {call : Call} {answer : call.Answer} (depicted : system.Depicts graph)
    (locked : ∀ lock, progress.held.holds lock → system.locks.holds lock)
    (allowed : progress.Allows members call)
    (answered : System.Answers False system call answer after) :
    ∃ later, Answers False (fun _ => True) (fun _ => True) progress call answer later ∧
      Advances graph members system after progress later := by
  obtain ⟨image, given, depicts⟩ := depicted.answered answered
  have drawn : Draws (fun _ => True) call answer := by cases call <;> trivial
  obtain ⟨rfl, _, _⟩ := answers_of_graph given drawn allowed
  obtain ⟨possible, succeeds⟩ := answered
  cases call with
  | read request =>
      cases request with
      | clustersContaining entities =>
          obtain rfl := show entities = members from allowed
          cases answer with
          | error error => exact (succeeds.elim id id).elim
          | ok ids =>
              refine ⟨⟨progress.held, some ids⟩, ⟨trivial, rfl⟩, depicts, ?_, ?_, ?_⟩
              · intro other same
                obtain rfl := Option.some.inj same
                exact ⟨given.2, rfl⟩
              · exact possible.2 ▸ locked
              · exact fun other apart inside => ⟨apart, possible.2 ▸ inside⟩
      | _ => exact allowed.elim
  | drawId =>
      simp only [System.MayAnswer, System.answer?, Option.some.injEq, Prod.mk.injEq] at possible
      obtain ⟨_, rfl⟩ := possible
      exact ⟨⟨progress.held, none⟩, ⟨trivial, rfl⟩, depicts, by simp, locked,
        fun other apart inside => ⟨apart, inside⟩⟩
  | lock request =>
      simp only [System.MayAnswer, System.answer?, Option.map_eq_some_iff, Prod.mk.injEq]
        at possible
      obtain ⟨table, taken, _, rfl⟩ := possible
      cases request with
      | take lock =>
          simp only [LockTable.answer?, LockTable.take?, Option.ite_none_left_eq_some,
            Option.some.injEq] at taken
          obtain ⟨free, rfl⟩ := taken
          refine ⟨⟨progress.held.add lock, none⟩, rfl, depicts, by simp, ?_, ?_⟩
          · intro other holds
            rw [LockTable.holds_add] at holds ⊢
            exact holds.imp_right (locked other)
          · intro other apart inside
            refine ⟨LockTable.apart_iff.mpr ?_, ?_⟩
            · intro held mine
              rw [LockTable.holds_add, not_or]
              refine ⟨?_, LockTable.apart_iff.mp apart held mine⟩
              rintro rfl
              exact free (inside _ mine)
            · intro held mine
              exact LockTable.holds_add.mpr (.inr (inside held mine))
      | release members clusters =>
          simp only [LockTable.answer?, Option.some.injEq] at taken
          subst taken
          have own : progress.held = ⟨members, clusters⟩ := allowed
          refine ⟨⟨progress.held.release members clusters, none⟩, rfl, depicts, by simp, ?_, ?_⟩
          · intro lock holds
            rw [own, LockTable.release_self] at holds
            simp at holds
          · intro other apart inside
            rw [own] at apart
            refine ⟨?_, ?_⟩
            · rw [own, LockTable.release_self]
              exact LockTable.apart_empty other
            · intro lock mine
              exact LockTable.holds_release.mpr
                ⟨inside lock mine, LockTable.apart_iff.mp apart lock mine⟩
  | _ => exact allowed.elim

/-- When the last look-up found nothing new, every cluster of a member is locked. -/
theorem Acquired.closed {members : EntitySet} {sees : IdSet → Prop} {draws : Id → Prop}
    {transaction : Transaction} {progress : LockProgress} {graph : LinkGraph}
    (got : Acquired members sees draws transaction progress)
    (reads : ∀ ids, progress.seen = some ids → graph.Reads (.clustersContaining members) ids) :
    graph.Closed transaction.locks := by
  obtain ⟨ids, seen, _, known⟩ := got.seen
  intro entity member cluster touches
  rw [Transaction.locks, got.members] at member
  exact known cluster ((reads ids seen cluster).mpr ⟨entity, member, touches⟩)

end LockProgress

namespace Stage

theorem keeps_ofLocking {graph serial : LinkGraph} {prepared : Prepared} {rest : Action Transaction}
    {progress : LockProgress} (sound : prepared.Sound) (tries : Tries prepared rest progress)
    (waits : ∀ transaction, rest.run ≠ .done (.ok transaction)) :
    (ofLocking prepared rest.run).Keeps graph serial progress.held ∧
      ¬(ofLocking prepared rest.run).HasLocked := by
  match rest with
  | .done (.ok transaction) => exact absurd rfl (waits transaction)
  | .done (.error error) =>
      obtain ⟨free, failed | ⟨contended, _⟩⟩ : LockProgress.Refused False _ error progress := tries
      · exact failed.elim
      · refine ⟨⟨free, ?_⟩, id⟩
        rintro _ ⟨⟩
        simp [contended, LinkError.IsNotLocked]
  | .ask call next => exact ⟨⟨sound, progress, rfl, tries⟩, id⟩

theorem keeps_ofReading {graph serial : LinkGraph} {rest : Action (LinkOutcome ⊕ Prepared)}
    (looks : rest.Looks False Linking.Found) :
    (ofReading rest.run).Keeps graph serial .empty ∧
      ¬(ofReading rest.run).HasLocked := by
  match rest with
  | .done (.ok (.inl outcome)) =>
      have skipped : outcome.isSkipped := looks
      refine ⟨⟨rfl, by simp⟩, ?_⟩
      simp [ofReading, HasLocked, ExceptT.run, skipped]
  | .done (.ok (.inr prepared)) =>
      have sound : prepared.Sound := looks
      have tries : Tries prepared (ClusterGraph.lockMembers prepared.members) .start :=
        ensures_lockMembers False _ _ sound.filled rfl
      refine keeps_ofLocking sound tries ?_
      intro transaction same
      rw [Tries, Action.Ensures, same] at tries
      obtain ⟨_, seen, _⟩ := tries.seen
      contradiction
  | .done (.error error) =>
      refine ⟨⟨rfl, ?_⟩, id⟩
      rintro _ ⟨⟩
      exact looks
  | .ask call next => exact ⟨⟨rfl, looks⟩, id⟩

theorem release_eq {transaction : Transaction} (filled : transaction.members.isEmpty = false) :
    transaction.release =
      Program.ask (.lock (.release transaction.members transaction.clusters)) .done := by
  simp only [Transaction.release, releaseLocks, filled, Bool.false_and, Bool.false_eq_true, if_false]
  rfl

theorem ofPlacing_thenAlways (prepared : Prepared) {transaction : Transaction}
    (filled : transaction.members.isEmpty = false) (body : Action LinkOutcome) :
    ofPlacing prepared transaction (body.thenAlways transaction.release).run =
      .placing prepared transaction (body.thenAlways transaction.release) := by
  rw [release_eq filled]
  match body with
  | .done result => rfl
  | .ask call next => rfl

/-- A pass that has just got its locks, before it links; beside it the pass has already been run alone. -/
theorem keeps_acquired {graph serial after : LinkGraph} {prepared : Prepared}
    {transaction : Transaction} {reserved : Id} (sound : prepared.Sound)
    (serves : transaction.Serves prepared reserved) (closed : graph.Closed transaction.locks)
    (closedSerial : serial.Closed transaction.locks)
    (same : graph.Matches (fun lock => transaction.locks.holds lock) serial)
    (placed : prepared.Placed transaction.locks reserved serial after) :
    (placing prepared transaction (prepared.settle transaction)).Keeps graph after
      transaction.locks := by
  refine ⟨sound, serves.members, rfl, closed, _, prepared.settle_eq transaction, ?_⟩
  refine Action.under_place sound serves closed ?_
  intro snapshot outcome state reports places
  refine ⟨reports.linked, same.placed ?_ closed closedSerial ⟨snapshot, places⟩ placed⟩
  intro entity accepted
  rw [Transaction.locks, serves.members]
  exact Prepared.mem_members.mpr accepted

theorem ofLocking_done {prepared : Prepared} {transaction : Transaction}
    (filled : transaction.members.isEmpty = false) :
    ofLocking prepared (.done (.ok transaction)) =
      .placing prepared transaction (prepared.settle transaction) := by
  rw [prepared.settle_eq]
  refine Eq.trans ?_ (ofPlacing_thenAlways prepared filled _)
  rw [← prepared.settle_eq]
  rfl

end Stage

end RecordLinkage
