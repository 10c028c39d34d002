import RecordLinkage.Proofs.Linking.Stages

/-! The invariant of passes that run at the same time: between what is there and what would be there if
every pass with its locks had run to its end, only what those locks cover may differ. -/

namespace RecordLinkage

namespace Passes

def Covers (stages : List Stage) (held : Nat → LockTable) (lock : Lock) : Prop :=
  ∃ index, ∃ stage : Stage, stages[index]? = some stage ∧ stage.IsPlacing ∧ (held index).holds lock

/-- Each pass keeps to its stage, no two have a lock in common, and what no pass links under its locks is as
it is after the passes that got theirs have run to their end. -/
structure Invariant (passes : Passes) (held : Nat → LockTable) (graph serial : LinkGraph) :
    Prop where
  depicted : passes.system.Depicts graph
  keeps : ∀ index (stage : Stage), passes.stages[index]? = some stage →
    stage.Keeps graph serial (held index)
  apart : ∀ index other, index ≠ other → (held index).Apart (held other)
  locked : ∀ index lock, (held index).holds lock → passes.system.locks.holds lock
  same : graph.Matches (fun lock => ¬Covers passes.stages held lock) serial

def give (held : Nat → LockTable) (index : Nat) (table : LockTable) : Nat → LockTable :=
  fun other => if other = index then table else held other

theorem give_self (held : Nat → LockTable) (index : Nat) (table : LockTable) :
    give held index table index = table := by simp [give]

theorem give_other {held : Nat → LockTable} {index other : Nat} {table : LockTable}
    (apart : other ≠ index) : give held index table other = held other := by simp [give, apart]

section Moves

variable {passes : Passes} {held : Nat → LockTable} {graph serial image serialImage : LinkGraph}
  {index : Nat} {stage next : Stage} {table : LockTable} {after : System}

theorem covers_set (found : passes.stages[index]? = some stage) {lock : Lock} :
    Covers (passes.stages.set index next) (give held index table) lock ↔
      next.IsPlacing ∧ table.holds lock ∨ ∃ other stage, other ≠ index ∧
        passes.stages[other]? = some stage ∧ stage.IsPlacing ∧ (held other).holds lock := by
  obtain ⟨bound, _⟩ := List.getElem?_eq_some_iff.mp found
  constructor
  · rintro ⟨other, stage, known, placing, holds⟩
    by_cases same : other = index
    · subst same
      rw [List.getElem?_set_self bound, Option.some.injEq] at known
      rw [give_self] at holds
      exact .inl ⟨known ▸ placing, holds⟩
    · rw [List.getElem?_set_ne (Ne.symm same)] at known
      rw [give_other same] at holds
      exact .inr ⟨other, stage, same, known, placing, holds⟩
  · rintro (⟨placing, holds⟩ | ⟨other, stage, apart, known, placing, holds⟩)
    · refine ⟨index, next, List.getElem?_set_self bound, placing, ?_⟩
      rwa [give_self]
    · refine ⟨other, stage, ?_, placing, ?_⟩
      · rwa [List.getElem?_set_ne (Ne.symm apart)]
      · rwa [give_other apart]

theorem covers_iff (found : passes.stages[index]? = some stage) {lock : Lock} :
    Covers passes.stages held lock ↔
      stage.IsPlacing ∧ (held index).holds lock ∨ ∃ other stage, other ≠ index ∧
        passes.stages[other]? = some stage ∧ stage.IsPlacing ∧ (held other).holds lock := by
  have same : Covers (passes.stages.set index stage) (give held index (held index)) lock ↔ _ :=
    covers_set found
  obtain ⟨bound, own⟩ := List.getElem?_eq_some_iff.mp found
  have table : give held index (held index) = held := by
    funext other
    by_cases same : other = index
    · subst same
      exact give_self _ _ _
    · exact give_other same
  rwa [← own, List.set_getElem_self, table, own] at same

/-- A pass moves on; it changes nothing but what its locks cover. -/
theorem Invariant.step (invariant : passes.Invariant held graph serial)
    (found : passes.stages[index]? = some stage) (depicted : after.Depicts image)
    (within : graph.Within (held index) image)
    (withinSerial : serial.Within (held index) serialImage)
    (keeps : next.Keeps image serialImage table)
    (locked : ∀ lock, table.holds lock → after.locks.holds lock)
    (others : ∀ other : LockTable, other.Apart (held index) →
      (∀ lock, other.holds lock → passes.system.locks.holds lock) →
      other.Apart table ∧ ∀ lock, other.holds lock → after.locks.holds lock)
    (same : image.Matches
      (fun lock => ¬Covers (passes.stages.set index next) (give held index table) lock)
      serialImage) (acquired : List Acquisition) :
    Invariant ⟨after, passes.stages.set index next, acquired⟩ (give held index table) image
      serialImage := by
  obtain ⟨bound, _⟩ := List.getElem?_eq_some_iff.mp found
  have other : ∀ other, other ≠ index → (held other).Apart table ∧
      ∀ lock, (held other).holds lock → after.locks.holds lock :=
    fun other apart => others (held other) (invariant.apart other index apart) (invariant.locked other)
  constructor
  case depicted => exact depicted
  case same => exact same
  case keeps =>
    intro position stage known
    by_cases own : position = index
    · subst own
      rw [List.getElem?_set_self bound, Option.some.injEq] at known
      rw [give_self]
      exact known ▸ keeps
    · rw [List.getElem?_set_ne (Ne.symm own)] at known
      rw [give_other own]
      have apart := invariant.apart position index own
      exact ((invariant.keeps position stage known).later within apart).laterSerial withinSerial
        apart
  case apart =>
    intro left right distinct
    by_cases own : left = index
    · subst own
      rw [give_self, give_other (Ne.symm distinct)]
      exact (other right (Ne.symm distinct)).1.symm
    · rw [give_other own]
      by_cases mine : right = index
      · subst mine
        rw [give_self]
        exact (other left distinct).1
      · rw [give_other mine]
        exact invariant.apart left right distinct
  case locked =>
    intro position lock holds
    by_cases own : position = index
    · subst own
      rw [give_self] at holds
      exact locked lock holds
    · rw [give_other own] at holds
      exact (other position own).2 lock holds

end Moves

section Calls

variable {passes : Passes} {held : Nat → LockTable} {graph serial : LinkGraph} {index : Nat}
  {call : Call} {answer : call.Answer} {after : System}

theorem Invariant.unplaced (invariant : passes.Invariant held graph serial) {stage next : Stage}
    (found : passes.stages[index]? = some stage) (before : ¬stage.HasLocked) (table : LockTable) :
    graph.Matches
      (fun lock => ¬Covers (passes.stages.set index next) (give held index table) lock) serial := by
  have placing : ∀ {stage : Stage}, stage.IsPlacing → stage.HasLocked := by
    intro stage placing
    cases stage <;> first | exact placing | exact placing.elim
  refine invariant.same.mono ?_
  intro lock apart covers
  apply apart
  rw [covers_set found]
  rcases (covers_iff found).mp covers with ⟨own, _⟩ | elsewhere
  · exact absurd (placing own) before
  · exact .inr elsewhere

theorem Invariant.read (invariant : passes.Invariant held graph serial)
    {next : call.Answer → Action (LinkOutcome ⊕ Prepared)}
    (found : passes.stages[index]? = some (.reading (.ask call next)))
    (answered : System.Answers False passes.system call answer after)
    (acquired : List Acquisition) :
    Invariant ⟨after, passes.stages.set index (.ofReading (next answer)), acquired⟩
        (give held index .empty) graph serial ∧ ¬(Stage.ofReading (next answer)).HasLocked := by
  obtain ⟨free, looks⟩ := invariant.keeps index _ found
  obtain ⟨image, given, depicts⟩ := invariant.depicted.answered answered
  obtain rfl := given.looked looks.1
  have same : after.locks = passes.system.locks := by
    refine answered.1.fixes.locks ?_
    rintro request rfl
    exact looks.1
  have rest : (next answer).Looks False Linking.Found := looks.2 answer () answered.2
  have ⟨keeps, later⟩ : (Stage.ofReading (next answer)).Keeps image serial .empty ∧ _ :=
    Stage.keeps_ofReading rest
  refine ⟨invariant.step found depicts (.refl _ _) (.refl _ _) keeps (by simp) ?_
    (invariant.unplaced found id _) acquired, later⟩
  intro other _ inside
  exact ⟨LockTable.apart_empty other, same ▸ inside⟩

/-- A cluster of an entity in the serial graph is one in the graph, if a pass has the entity locked and does
not link yet. -/
theorem Invariant.closed_serial (invariant : passes.Invariant held graph serial) {stage : Stage}
    (found : passes.stages[index]? = some stage) (waits : ¬stage.IsPlacing)
    (closed : graph.Closed (held index)) : serial.Closed (held index) := by
  intro entity inside cluster touches
  apply closed entity inside
  by_cases covers : Covers passes.stages held (.cluster cluster)
  · obtain ⟨other, placing, known, isPlacing, holds⟩ := covers
    have apart : index ≠ other := by
      rintro rfl
      rw [found, Option.some.injEq] at known
      exact waits (known ▸ isPlacing)
    rcases (invariant.keeps other placing known).touches invariant.depicted isPlacing
      (Std.ExtTreeSet.contains_iff_mem.mp holds) touches with old | foreign
    · exact old
    · exact absurd foreign ((invariant.apart index other apart).members entity inside)
  · rwa [LinkGraph.Touches, invariant.same.scores cluster covers]

/-- What a pass that does not link yet has locked is the same in both graphs. -/
theorem Invariant.same_own (invariant : passes.Invariant held graph serial) {stage : Stage}
    (found : passes.stages[index]? = some stage) (waits : ¬stage.IsPlacing) :
    graph.Matches (fun lock => (held index).holds lock) serial := by
  refine invariant.same.mono ?_
  intro lock mine covers
  rcases (covers_iff found).mp covers with ⟨isPlacing, _⟩ | ⟨other, _, apart, _, _, foreign⟩
  · exact waits isPlacing
  · exact LockTable.apart_iff.mp (invariant.apart index other (Ne.symm apart)) lock mine foreign

/-- The call by which a pass gets its locks; beside the others it is run to its end then. -/
theorem Invariant.acquire (invariant : passes.Invariant held graph serial) {prepared : Prepared}
    {next : call.Answer → Action Transaction} {transaction : Transaction} {alone : System}
    (found : passes.stages[index]? = some (.locking prepared (.ask call next)))
    (answered : System.Answers False passes.system call answer after)
    (done : (next answer).run = .done (.ok transaction)) (holds : alone.Holds .empty serial) :
    ∃ reserved serialAfter, transaction.reserved = some reserved ∧
      Stage.ofLocking prepared (next answer).run =
        .placing prepared transaction (prepared.settle transaction) ∧
      (prepared.alone reserved alone).2.Holds .empty serialAfter ∧
      ∀ acquired, Invariant ⟨after, passes.stages.set index (.placing prepared transaction
        (prepared.settle transaction)), acquired⟩ (give held index transaction.locks) graph
        serialAfter := by
  obtain ⟨sound, progress, own, tries⟩ := invariant.keeps index _ found
  obtain ⟨later, told, advances⟩ :=
    LockProgress.advances invariant.depicted (own ▸ invariant.locked index) tries.1 answered
  have got : LockProgress.Acquired prepared.members (fun _ => True) (fun _ => True) transaction
      later := by
    have ended := tries.2 answer later told
    change Program.Ensures _ _ _ (next answer).run _ at ended
    rwa [done] at ended
  obtain ⟨ids, seen, _⟩ := got.seen
  obtain ⟨reserved, reserves, inside, _⟩ := got.reserved
  have kept : later.held = progress.held := (advances.seen ids seen).2
  have locks : held index = transaction.locks := (got.held.symm.trans (kept.trans own)).symm
  have closed := got.closed fun ids seen => (advances.seen ids seen).1
  have same := invariant.same_own found id
  have closedSerial := invariant.closed_serial found id (locks ▸ closed)
  rw [locks] at same closedSerial
  obtain ⟨outcome, final, serialAfter, run, rests, placed, within⟩ :=
    Prepared.alone_eq sound holds got.members closedSerial inside
  have filled : transaction.members.isEmpty = false := by
    rw [got.members]
    exact sound.filled
  have serves : transaction.Serves prepared reserved := ⟨got.members, reserves, inside, got.staged⟩
  refine ⟨reserved, serialAfter, reserves, ?_, by rwa [run], fun acquired => ?_⟩
  · rw [done]
    exact Stage.ofLocking_done filled
  have keeps := Stage.keeps_acquired sound serves closed closedSerial same placed
  have unchanged : graph.Matches (fun lock => ¬Covers (passes.stages.set index (.placing prepared
      transaction (prepared.settle transaction))) (give held index transaction.locks) lock) serial :=
    invariant.unplaced found id transaction.locks
  refine invariant.step found advances.depicted (.refl _ _) (locks ▸ within) keeps ?_ ?_
    (unchanged.symm.later within ?_).symm acquired
  · intro lock mine
    exact advances.locked lock (by rwa [got.held])
  · have others := advances.others
    rw [kept, own] at others
    rwa [← locks]
  · intro lock apart mine
    exact apart ((covers_set found).mpr (.inl ⟨trivial, mine⟩))

theorem Invariant.lock (invariant : passes.Invariant held graph serial) {prepared : Prepared}
    {next : call.Answer → Action Transaction}
    (found : passes.stages[index]? = some (.locking prepared (.ask call next)))
    (answered : System.Answers False passes.system call answer after)
    (waits : ∀ transaction, (next answer).run ≠ .done (.ok transaction))
    (acquired : List Acquisition) :
    ∃ table, Invariant ⟨after, passes.stages.set index (.ofLocking prepared (next answer).run),
        acquired⟩ (give held index table) graph serial ∧
      ¬(Stage.ofLocking prepared (next answer).run).HasLocked := by
  obtain ⟨sound, progress, own, tries⟩ := invariant.keeps index _ found
  obtain ⟨later, told, advances⟩ :=
    LockProgress.advances invariant.depicted (own ▸ invariant.locked index) tries.1 answered
  have rest : Stage.Tries prepared (next answer) later := tries.2 answer later told
  obtain ⟨keeps, unlocked⟩ := Stage.keeps_ofLocking sound rest waits
  have others := advances.others
  rw [own] at others
  exact ⟨later.held, invariant.step found advances.depicted (.refl _ _) (.refl _ _) keeps
    advances.locked others (invariant.unplaced found id _) acquired, unlocked⟩

theorem Invariant.placeNext (invariant : passes.Invariant held graph serial) {prepared : Prepared}
    {transaction : Transaction} {rest : Action LinkOutcome}
    {next : call.Answer → Action LinkOutcome}
    (found : passes.stages[index]? = some (.placing prepared transaction rest))
    (closed : graph.Closed (held index)) (sound : prepared.Sound)
    (members : transaction.members = prepared.members) (locks : transaction.locks = held index)
    (under : Action.Under False (held index) (fun outcome after => outcome.isSkipped = false ∧
      after.Matches (fun lock => (held index).holds lock) serial) (Program.ask call next) graph)
    (answered : System.Answers False passes.system call answer after)
    (acquired : List Acquisition) :
    ∃ image, Invariant ⟨after, passes.stages.set index (.placing prepared transaction
      ((next answer).thenAlways transaction.release)), acquired⟩ (give held index (held index))
      image serial := by
  obtain ⟨image, given, depicts⟩ := invariant.depicted.answered answered
  have within := given.within under.1 closed
  have locksAfter : after.locks = passes.system.locks := by
    refine answered.1.fixes.locks ?_
    rintro request rfl
    exact under.1
  have keeps : (Stage.placing prepared transaction
      ((next answer).thenAlways transaction.release)).Keeps image serial (held index) :=
    ⟨sound, members, locks, within.closed closed, next answer, rfl, under.2 answer image given⟩
  refine ⟨image, invariant.step found depicts within (.refl _ _) keeps ?_ ?_
    (LinkGraph.Matches.later (invariant.same.mono ?_) within ?_) acquired⟩
  · rw [locksAfter]
    exact invariant.locked index
  · exact fun other apart inside => ⟨apart, locksAfter ▸ inside⟩
  · intro lock apart covers
    refine apart ((covers_set found).mpr ?_)
    exact ((covers_iff found).mp covers)
  · intro lock apart mine
    exact apart ((covers_set found).mpr (.inl ⟨trivial, mine⟩))

theorem Invariant.placeLast (invariant : passes.Invariant held graph serial) {prepared : Prepared}
    {transaction : Transaction} {rest : Action LinkOutcome} {outcome : LinkOutcome}
    (found : passes.stages[index]? = some (.placing prepared transaction rest))
    (locks : transaction.locks = held index)
    (same : graph.Matches (fun lock => (held index).holds lock) serial)
    (answered : System.Answers False passes.system
      (.lock (.release transaction.members transaction.clusters)) () after)
    (acquired : List Acquisition) :
    Invariant ⟨after, passes.stages.set index (.ended (.ok outcome)), acquired⟩
      (give held index .empty) graph serial := by
  obtain ⟨image, given, depicts⟩ := invariant.depicted.answered answered
  obtain rfl := show image = graph from given
  have released : after.locks =
      passes.system.locks.release transaction.members transaction.clusters := by
    have possible := answered.1
    simp only [System.MayAnswer, System.answer?, LockTable.answer?, Option.map_some,
      Option.some.injEq, Prod.mk.injEq, true_and] at possible
    exact possible ▸ rfl
  have keeps : (Stage.ended (.ok outcome)).Keeps image serial .empty := ⟨rfl, by simp⟩
  refine invariant.step found depicts (.refl _ _) (.refl _ _) keeps (by simp) ?_
    ((invariant.same.join same).mono ?_) acquired
  · intro other apart inside
    refine ⟨LockTable.apart_empty other, ?_⟩
    intro lock mine
    rw [released, LockTable.holds_release]
    refine ⟨inside lock mine, ?_⟩
    rw [← locks] at apart
    exact LockTable.apart_iff.mp apart lock mine
  · intro lock apart
    by_cases mine : (held index).holds lock
    · exact .inr mine
    · refine .inl ?_
      intro covers
      rcases (covers_iff found).mp covers with ⟨_, own⟩ | elsewhere
      · exact mine own
      · exact apart ((covers_set found).mpr (.inr elsewhere))

theorem Invariant.place (invariant : passes.Invariant held graph serial) {prepared : Prepared}
    {transaction : Transaction} {next : call.Answer → Action LinkOutcome}
    (found : passes.stages[index]? = some (.placing prepared transaction (.ask call next)))
    (answered : System.Answers False passes.system call answer after)
    (acquired : List Acquisition) :
    ∃ table image, Invariant ⟨after, passes.stages.set index
        (.ofPlacing prepared transaction (next answer).run), acquired⟩ (give held index table)
        image serial ∧ (Stage.ofPlacing prepared transaction (next answer).run).HasLocked := by
  obtain ⟨sound, members, locks, closed, body, same, under⟩ := invariant.keeps index _ found
  have filled : transaction.members.isEmpty = false := by
    rw [members]
    exact sound.filled
  match body with
  | .ask first body =>
      have asks : Program.ask call next =
          Program.ask first fun answer => (Action.thenAlways (body answer) transaction.release).run :=
        same
      obtain ⟨rfl, rest⟩ := Program.ask.inj asks
      obtain rfl := eq_of_heq rest
      obtain ⟨image, step⟩ :=
        invariant.placeNext found closed sound members locks under answered acquired
      have moved := Stage.ofPlacing_thenAlways prepared filled (body answer)
      rw [← moved] at step
      exact ⟨held index, image, step, moved.symm ▸ trivial⟩
  | .done (.error error) => exact under.elim
  | .done (.ok outcome) =>
      have asks : Program.ask call next =
          Program.ask (.lock (.release transaction.members transaction.clusters))
            fun _ => .done (.ok outcome) := by
        refine Eq.trans same ?_
        rw [Stage.release_eq filled]
        rfl
      obtain ⟨rfl, rest⟩ := Program.ask.inj asks
      obtain rfl := eq_of_heq rest
      obtain ⟨links, matching⟩ := under
      exact ⟨.empty, graph, invariant.placeLast found locks matching answered acquired, links⟩

end Calls

end Passes

end RecordLinkage
