import RecordLinkage.Proofs.Linking.Interleaved

/-! Passes that run at the same time do what they do one after the other in the order in which they get
their locks. A pass is ahead of nobody: when it gets its locks, the passes before it are run to their
end on the side, and from then on the pass under its locks goes where it goes there. -/

namespace RecordLinkage

structure System.Ready (system : System) : Prop where
  sound : system.store.tables.matched.Sound
  timely : ∃ present, (∀ cluster, ∀ entry ∈ system.store.tables.log.entriesFor cluster,
      entry.micros ≤ present) ∧
    ∀ reading, present < Membership.tick system.lastTick (system.clock reading)

theorem System.ready_of_empty {system : System} (empty : system.store.tables = .empty) :
    system.Ready where
  sound := by
    rw [empty]
    exact MatchTable.sound_empty
  timely := by
    refine ⟨0, ?_, fun _ => Membership.one_le_tick _ _⟩
    intro cluster entry listed
    simp [empty, Tables.empty, LogTable.empty, LogTable.entriesFor] at listed

namespace Passes

structure Recorded (passes : Passes) : Prop where
  once : (passes.acquired.map Acquisition.pass).Nodup
  listed : ∀ index, index ∈ passes.acquired.map Acquisition.pass ↔
    ∃ stage : Stage, passes.stages[index]? = some stage ∧ stage.HasLocked

section Records

variable {passes : Passes} {index : Nat} {stage next : Stage} {after : System}

theorem hasLocked_set (found : passes.stages[index]? = some stage) (other : Nat) :
    (∃ known : Stage, (passes.stages.set index next)[other]? = some known ∧ known.HasLocked) ↔
      (other = index ∧ next.HasLocked) ∨ (other ≠ index ∧
        ∃ known : Stage, passes.stages[other]? = some known ∧ known.HasLocked) := by
  obtain ⟨bound, _⟩ := List.getElem?_eq_some_iff.mp found
  by_cases same : other = index
  · subst same
    simp [List.getElem?_set_self bound]
  · simp [List.getElem?_set_ne (Ne.symm same), same]

theorem Recorded.keep (recorded : passes.Recorded) (found : passes.stages[index]? = some stage)
    (same : next.HasLocked ↔ stage.HasLocked) :
    Recorded ⟨after, passes.stages.set index next, passes.acquired⟩ where
  once := recorded.once
  listed := by
    intro other
    rw [hasLocked_set found, recorded.listed]
    by_cases own : other = index
    · subst own
      simp [found, same]
    · simp [own]

theorem Recorded.add (recorded : passes.Recorded) (found : passes.stages[index]? = some stage)
    (before : ¬stage.HasLocked) (later : next.HasLocked) (prepared : Prepared) (reserved : Id) :
    Recorded ⟨after, passes.stages.set index next,
      passes.acquired ++ [⟨index, prepared, reserved⟩]⟩ where
  once := by
    have fresh : index ∉ passes.acquired.map Acquisition.pass := by
      rw [recorded.listed]
      rintro ⟨known, same, locked⟩
      rw [found, Option.some.injEq] at same
      exact before (same ▸ locked)
    simp only [List.map_append, List.map_cons, List.map_nil, List.nodup_append]
    refine ⟨recorded.once, by simp, ?_⟩
    rintro other listed _ new rfl
    exact fresh (List.mem_singleton.mp new ▸ listed)
  listed := by
    intro other
    simp only [List.map_append, List.map_cons, List.map_nil, List.mem_append, List.mem_singleton]
    rw [hasLocked_set found, recorded.listed]
    by_cases own : other = index
    · subst own
      simp [later]
    · simp [own]

end Records

/-- Beside the passes, in memory, those that got their locks run alone to their end. -/
def IsSerial (start : System) (passes : Passes) : Prop :=
  passes.Recorded ∧ ∃ held graph serial, passes.Invariant held graph serial ∧
    (start.linkedInOrder passes.acquired).Holds .empty serial

theorem linkedInOrder_append (start : System) (acquired : List Acquisition)
    (acquisition : Acquisition) :
    start.linkedInOrder (acquired ++ [acquisition]) =
      (acquisition.prepared.alone acquisition.reserved (start.linkedInOrder acquired)).2 :=
  List.foldl_append

theorem acquires_ofLocking {prepared : Prepared} {rest rest' : Action Transaction}
    (waits : ∀ transaction, rest'.run ≠ .done (.ok transaction)) :
    (Stage.locking prepared rest).acquires (.ofLocking prepared rest'.run) = none := by
  match rest' with
  | .done (.ok transaction) => exact absurd rfl (waits transaction)
  | .done (.error error) => rfl
  | .ask call next => rfl

section Serial

variable {start : System} {before : Passes} {graph serial : LinkGraph} {index : Nat}
  {stage next : Stage} {after : System}

theorem isSerial_of_keep (recorded : before.Recorded)
    (holds : (start.linkedInOrder before.acquired).Holds .empty serial)
    (found : before.stages[index]? = some stage) (none : stage.acquires next = none)
    (same : next.HasLocked ↔ stage.HasLocked)
    (kept : ∃ held graph, Invariant ⟨after, before.stages.set index next, before.acquired⟩ held graph
      serial) :
    IsSerial start ⟨after, before.stages.set index next, before.acquired ++
      ((stage.acquires next).map fun (prepared, reserved) =>
        (⟨index, prepared, reserved⟩ : Acquisition)).toList⟩ := by
  obtain ⟨held, graph, invariant⟩ := kept
  rw [none, Option.map_none, Option.toList_none, List.append_nil]
  exact ⟨recorded.keep found same, held, graph, serial, invariant, holds⟩

theorem isSerial_of_add {prepared : Prepared} {reserved : Id} (recorded : before.Recorded)
    (holds : (prepared.alone reserved (start.linkedInOrder before.acquired)).2.Holds .empty serial)
    (found : before.stages[index]? = some stage)
    (acquires : stage.acquires next = some (prepared, reserved))
    (unlocked : ¬stage.HasLocked) (locked : next.HasLocked)
    (kept : ∃ held graph, Invariant ⟨after, before.stages.set index next,
      before.acquired ++ [⟨index, prepared, reserved⟩]⟩ held graph serial) :
    IsSerial start ⟨after, before.stages.set index next, before.acquired ++
      ((stage.acquires next).map fun (prepared, reserved) =>
        (⟨index, prepared, reserved⟩ : Acquisition)).toList⟩ := by
  obtain ⟨held, graph, invariant⟩ := kept
  rw [acquires, Option.map_some, Option.toList_some]
  refine ⟨recorded.add found unlocked locked prepared reserved, held, graph, serial, invariant, ?_⟩
  rwa [linkedInOrder_append]

theorem IsSerial.step {after : Passes} (isSerial : IsSerial start before)
    (step : Step before after) : IsSerial start after := by
  obtain ⟨recorded, held, graph, serial, invariant, holds⟩ := isSerial
  cases step with
  | call found asks answered =>
      rename_i index stage call next answer system
      match stage, asks with
      | .reading (.ask _ rest), asks =>
          obtain ⟨rfl, rfl⟩ := asks
          obtain ⟨kept, unlocked⟩ := invariant.read found answered before.acquired
          exact isSerial_of_keep recorded holds found rfl (iff_of_false unlocked id) ⟨_, _, kept⟩
      | .locking prepared (.ask call rest), asks =>
          obtain ⟨rfl, rfl⟩ := asks
          by_cases done : ∃ transaction, rest answer = .done (.ok transaction)
          · obtain ⟨transaction, done⟩ := done
            obtain ⟨reserved, _, reserves, moved, rests, kept⟩ := invariant.acquire found answered
              done holds
            change Stage.ofLocking prepared (rest answer) = _ at moved
            simp only [moved]
            refine isSerial_of_add recorded rests found ?_ id trivial ⟨_, _, kept _⟩
            simp [Stage.acquires, reserves]
          · have waits : ∀ transaction, rest answer ≠ .done (.ok transaction) :=
              fun transaction same => done ⟨transaction, same⟩
            obtain ⟨_, kept, unlocked⟩ := invariant.lock found answered waits before.acquired
            exact isSerial_of_keep recorded holds found (acquires_ofLocking waits)
              (iff_of_false unlocked id) ⟨_, _, kept⟩
      | .placing prepared transaction (.ask _ rest), asks =>
          obtain ⟨rfl, rfl⟩ := asks
          obtain ⟨_, _, kept, locked⟩ := invariant.place found answered before.acquired
          exact isSerial_of_keep recorded holds found rfl (iff_of_true locked trivial) ⟨_, _, kept⟩

end Serial

theorem IsSerial.steps {start : System} {first after : Passes} (isSerial : IsSerial start first)
    (steps : Steps first after) : IsSerial start after := by
  induction steps with
  | none => exact isSerial
  | next _ step ih => exact ih.step step

theorem isSerial_start {start : System} (ready : start.Ready) (free : start.locks = .empty)
    (linkers : List (Linker × EntityKey)) : IsSerial start (Passes.start start linkers) := by
  obtain ⟨sound, present, past, ahead⟩ := ready
  let graph := start.graph (min present Membership.latest)
  have depicted : start.Depicts graph := by
    refine ⟨sound, rfl, ?_, fun _ => Int.min_le_right _ _⟩
    intro reading
    exact Int.lt_of_le_of_lt (Int.min_le_left _ _) (ahead reading)
  have timely : ∀ entity time, graph.stamps entity time → time ≤ graph.lastTick := by
    rintro entity _ ⟨cluster, entry, listed, _, rfl⟩
    exact Int.le_min.mpr ⟨past cluster entry listed, Membership.micros_le_latest entry⟩
  have starts : ∀ (index : Nat) (stage : Stage), (Passes.start start linkers).stages[index]? = some stage →
      stage.Keeps graph graph .empty ∧ ¬stage.HasLocked := by
    intro index stage found
    obtain ⟨⟨linker, focal⟩, _, rfl⟩ := List.mem_map.mp (List.mem_of_getElem? found)
    exact Stage.keeps_ofReading (linker.looks_prepare focal)
  refine ⟨⟨by simp [Passes.start], ?_⟩, fun _ => .empty, graph, graph, ?_, ?_⟩
  · intro index
    simp only [Passes.start, List.map_nil, List.not_mem_nil, false_iff]
    rintro ⟨stage, found, locked⟩
    exact (starts index stage found).2 locked
  · constructor
    case depicted => exact depicted
    case keeps => exact fun index stage found => (starts index stage found).1
    case apart => exact fun _ _ _ => LockTable.apart_empty _
    case locked => simp
    case same =>
      exact ⟨fun _ _ => rfl, fun _ _ => rfl, fun _ _ _ _ _ => rfl, fun entity _ => timely entity,
        fun entity _ => timely entity⟩
  · exact ⟨depicted.unchanged rfl rfl rfl rfl rfl, ⟨_, rfl⟩, free⟩

end Passes

theorem Passes.Invariant.matches_of_ended {passes : Passes} {held : Nat → LockTable}
    {graph serial : LinkGraph} (invariant : passes.Invariant held graph serial)
    (ended : passes.AllEnded) : graph.Matches (fun _ => True) serial := by
  refine invariant.same.mono ?_
  rintro lock _ ⟨index, stage, found, placing, _⟩
  have ended := ended stage (List.mem_of_getElem? found)
  cases stage <;> first | exact placing | contradiction

/-- The same rows up to the times at which they were written, the same link pointers, and the same
members of every cluster as long as no log clock runs past the last time. -/
structure System.LinkedAs (system other : System) : Prop where
  rows : ∀ edge : Edge, (system.store.tables.matched.find? edge).map MatchRow.score =
    (other.store.tables.matched.find? edge).map MatchRow.score
  pointers : ∀ entity : EntityKey, system.index[entity]?.map IndexRecord.cluster =
    other.index[entity]?.map IndexRecord.cluster
  members : system.lastTick ≤ Membership.latest → other.lastTick ≤ Membership.latest →
    ∀ (cluster : Id) (entity : EntityKey),
      (Membership.fold (system.store.tables.log.entriesFor cluster) Membership.latest).has entity =
      (Membership.fold (other.store.tables.log.entriesFor cluster) Membership.latest).has entity

theorem System.Depicts.linkedAs {system other : System} {graph graphOther : LinkGraph}
    (depicted : system.Depicts graph) (depictedOther : other.Depicts graphOther)
    (same : graph.Matches (fun _ => True) graphOther) : system.LinkedAs other where
  rows := by
    intro edge
    have scores := same.scores edge.cluster trivial
    rw [depicted.scores, depictedOther.scores] at scores
    simp only [MatchTable.find?, ← ClusterRows.getElem?_scores, scores]
  pointers := by
    intro entity
    rw [← depicted.record, ← depictedOther.record]
    exact same.record entity trivial
  members := by
    intro bound boundOther cluster entity
    have present := same.present (depicted.bounded bound) (depictedOther.bounded boundOther) cluster
      entity trivial
    rw [depicted.shown, depictedOther.shown] at present
    exact present

/-- Passes that have all ended leave what others need to begin. -/
theorem Passes.ready_of_ended {start : System} {linkers : List (Linker × EntityKey)} {final : Passes}
    (ready : start.Ready) (free : start.locks = .empty)
    (steps : Steps (Passes.start start linkers) final) (ended : final.AllEnded) :
    final.system.Ready := by
  obtain ⟨_, held, graph, serial, invariant, _⟩ := (isSerial_start ready free linkers).steps steps
  have same := invariant.matches_of_ended ended
  refine ⟨invariant.depicted.sound, graph.lastTick, ?_, invariant.depicted.ahead⟩
  intro cluster entry listed
  refine same.timely entry.entity trivial entry.micros ?_
  rw [invariant.depicted.shown]
  exact ⟨cluster, entry, listed, rfl, rfl⟩

/-- Passes that run at the same time never miss a lock, and once all have ended, those that linked did what
they do alone one after the other in the order in which they got their locks. -/
theorem passes_serializable {start : System} {linkers : List (Linker × EntityKey)} {final : Passes}
    (ready : start.Ready) (free : start.locks = .empty)
    (steps : Passes.Steps (Passes.start start linkers) final) :
    (∀ error, .ended (.error error) ∈ final.stages → ¬error.IsNotLocked) ∧
      (final.AllEnded → final.system.LinkedAs (start.linkedInOrder final.acquired) ∧
        (final.acquired.map Acquisition.pass).Nodup ∧
        ∀ index, index ∈ final.acquired.map Acquisition.pass ↔
          ∃ outcome, final.stages[index]? = some (.ended (.ok outcome)) ∧
            outcome.isSkipped = false) := by
  obtain ⟨recorded, held, graph, serial, invariant, holds⟩ :=
    (Passes.isSerial_start ready free linkers).steps steps
  constructor
  · intro error listed
    obtain ⟨index, found⟩ := List.mem_iff_getElem?.mp listed
    exact (invariant.keeps index _ found).2 error rfl
  · intro ended
    refine ⟨invariant.depicted.linkedAs holds.depicted (invariant.matches_of_ended ended),
      recorded.once, ?_⟩
    · intro index
      rw [recorded.listed]
      constructor
      · rintro ⟨stage, found, locked⟩
        have ended := ended stage (List.mem_of_getElem? found)
        match stage with
        | .ended (.ok outcome) => exact ⟨outcome, found, locked⟩
        | .ended (.error _) => exact locked.elim
        | .reading _ | .locking _ _ | .placing _ _ _ => contradiction
      · rintro ⟨outcome, found, links⟩
        exact ⟨_, found, links⟩

namespace Sample

def passes : Passes :=
  (Passes.start start [(linker, left), (linker, right)]).advance
    ((List.replicate 60 [0, 1]).flatten)

end Sample

theorem serializable_turns : Sample.passes.AllEnded ∧
    Sample.passes.system.LinkedAs (Sample.start.linkedInOrder Sample.passes.acquired) := by
  have steps : Passes.Steps (Passes.start Sample.start
      [(Sample.linker, Sample.left), (Sample.linker, Sample.right)]) Sample.passes :=
    Passes.steps_advance _ rfl Sample.host_succeeds (.none _)
  have ended : Sample.passes.AllEnded := by
    have all : Sample.passes.stages.all Stage.isEnded := by decide +kernel
    exact List.all_eq_true.mp all
  have ready : Sample.start.Ready := System.ready_of_empty rfl
  exact ⟨ended, ((passes_serializable ready rfl steps).2 ended).1⟩

end RecordLinkage
