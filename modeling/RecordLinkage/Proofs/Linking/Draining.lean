import Mathlib.Data.List.Perm.Subperm
import RecordLinkage.Proofs.Linking.Informed
import RecordLinkage.Proofs.Linking.Ledger

/-! Rounds over the queue of entities that wait to be linked. A pass takes its focal entity off the queue, unless
there is nothing to link it by. So each round shortens the queue until its first places are taken by such entities
alone, and from then on the rounds change nothing. -/

namespace RecordLinkage

namespace Index

variable {index middle after : Index} {sets : IdSet} {entity : EntityKey} {time : Instant}

def pending (index : Index) (sets : IdSet) : List EntityKey :=
  (index.toList.filter fun (entity, record) =>
    sets.contains entity.set && record.isLive && record.needsLinking).map (·.1)

theorem mem_pending : entity ∈ index.pending sets ↔ entity.set ∈ sets ∧
    ∃ record, index[entity]? = some record ∧ record.isLive ∧ record.needsLinking := by
  simp only [pending, List.mem_map, List.mem_filter, Prod.exists, Std.ExtTreeMap.mem_toList_iff_getElem?_eq_some,
    Bool.and_eq_true, Std.ExtTreeSet.contains_iff_mem]
  constructor
  · rintro ⟨_, record, ⟨found, ⟨listed, live⟩, needs⟩, rfl⟩
    exact ⟨listed, record, found, live, needs⟩
  · rintro ⟨listed, record, found, live, needs⟩
    exact ⟨entity, record, ⟨found, ⟨listed, live⟩, needs⟩, rfl⟩

theorem ascending_pending (index : Index) (sets : IdSet) : Ascending id (index.pending sets) := by
  have ordered : index.toList.Pairwise fun a b => compare a.1 b.1 = .lt := Std.ExtTreeMap.ordered_keys_toList
  exact (ordered.filter _).map _ fun _ _ => id

def Precedes (index : Index) (time : Instant) : Prop :=
  ∀ (entity : EntityKey) record, index[entity]? = some record → record.lastWrite.after time = false

def Stamped (index after : Index) : Prop :=
  ∀ entity : EntityKey, after[entity]? = index[entity]? ∨ ∃ record cluster linkedAt, index[entity]? = some record ∧
    record.lastWrite.after linkedAt = false ∧ after[entity]? = some (record.linked cluster linkedAt)

theorem Stamped.refl (index : Index) : index.Stamped index := fun _ => .inl rfl

theorem Stamped.trans (first : index.Stamped middle) (second : middle.Stamped after) : index.Stamped after := by
  intro entity
  rcases second entity with same | ⟨record, cluster, linkedAt, found, later, linked⟩
  · rw [same]
    exact first entity
  · rcases first entity with same | ⟨record', _, _, found', _, linked'⟩
    · exact .inr ⟨record, cluster, linkedAt, same ▸ found, later, linked⟩
    · obtain rfl := Option.some.inj (found.symm.trans linked')
      exact .inr ⟨record', cluster, linkedAt, found', later, linked⟩

theorem Stamped.precedes (stamped : index.Stamped after) (precedes : index.Precedes time) :
    after.Precedes time := by
  intro entity record found
  rcases stamped entity with same | ⟨before, _, _, known, _, linked⟩
  · exact precedes entity record (same ▸ found)
  · obtain rfl := Option.some.inj (found.symm.trans linked)
    exact precedes entity before known

theorem not_needsLinking_linked {record : IndexRecord} {cluster : Id} (later : record.lastWrite.after time = false) :
    (record.linked cluster time).needsLinking = false := later

/-- No one joins the queue. -/
theorem Stamped.sublist (stamped : index.Stamped after) (sets : IdSet) :
    (after.pending sets).Sublist (index.pending sets) := by
  refine (ascending_pending after sets).sublist (ascending_pending index sets) fun entity waits => ?_
  obtain ⟨listed, record, found, live, needs⟩ := mem_pending.mp waits
  rcases stamped entity with same | ⟨_, _, _, _, later, linked⟩
  · exact mem_pending.mpr ⟨listed, record, same ▸ found, live, needs⟩
  · obtain rfl := Option.some.inj (found.symm.trans linked)
    rw [not_needsLinking_linked later] at needs
    cases needs

variable {cluster : Id} {joining : List EntityKey}

theorem stamped_of_points (points : Ledger.Points index.Precedes cluster joining index after) :
    index.Stamped after := by
  intro entity
  by_cases joins : entity ∈ joining
  · obtain ⟨linkedAt, precedes, same⟩ := (points entity).2 joins
    cases found : index[entity]? with
    | none => exact .inl (by rw [same, found]; rfl)
    | some record =>
        refine .inr ⟨record, cluster, linkedAt, rfl, precedes entity record found, ?_⟩
        rw [same, found]
        rfl
  · exact .inl ((points entity).1 joins)

/-- Whoever joins a cluster leaves the queue. -/
theorem not_pending_of_points (points : Ledger.Points index.Precedes cluster joining index after)
    (joins : entity ∈ joining) (sets : IdSet) : entity ∉ after.pending sets := by
  intro waits
  obtain ⟨_, record, found, _, needs⟩ := mem_pending.mp waits
  obtain ⟨linkedAt, precedes, same⟩ := (points entity).2 joins
  obtain ⟨before, known, rfl⟩ := Option.map_eq_some_iff.mp (same.symm.trans found)
  rw [not_needsLinking_linked (precedes entity before known)] at needs
  cases needs

end Index

namespace Linker

def linkAll (linker : Linker) : List EntityKey → Action Unit
  | [] => return ()
  | entity :: entities => do
      let _ ← linker.link entity
      linkAll linker entities

def round (linker : Linker) (sets : IdSet) (limit : Nat) : Action (List EntityKey) := do
  let batch ← ClusterGraph.needingLinking sets limit
  linker.linkAll batch
  return batch

def drain (linker : Linker) (sets : IdSet) (limit : Nat) : Nat → Action (List EntityKey)
  | 0 => ClusterGraph.needingLinking sets limit
  | rounds + 1 => do
      let batch ← linker.round sets limit
      if batch.isEmpty then return batch else drain linker sets limit rounds

def linkable (linker : Linker) (host : Host) (entity : EntityKey) : Bool :=
  match (host (.loadOne entity) : Except LinkError Properties) with
  | .ok properties => properties.hasValuesFor linker.config.blocking.propertyTypes
  | .error _ => false

end Linker

/-- With a host that serves, a pass has something to link just when the host has a value to link by. -/
theorem Linker.told_prepare {host : Host} {feedback : FeedbackTable} (linker : Linker) {focal : EntityKey}
    (reliable : host.Reliable) (knows : host.Knows focal) :
    (linker.prepare focal).Told host feedback True False (fun _ => False)
      (fun found => found.isRight = linker.linkable host focal) := by
  rw [linker.prepare_eq]
  have blocks := @resolves_block host feedback True True focal trivial linker (fun _ => reliable) fun _ => knows
  refine (Action.ensures_bind _ _ _).mpr (blocks.told.mono ?_)
  rintro block _ ⟨own, properties, loaded, candidates⟩
  have same : linker.linkable host focal = properties.hasValuesFor linker.config.blocking.propertyTypes := by
    simp only [linkable, loaded]
  rw [same]
  by_cases valued : properties.hasValuesFor linker.config.blocking.propertyTypes
  · rw [if_pos valued] at candidates
    have filled : block.isEmpty = false := by
      refine Bool.eq_false_iff.mpr fun empty => ?_
      rw [Std.ExtTreeMap.isEmpty_iff.mp empty] at candidates
      exact Std.ExtTreeMap.not_mem_empty candidates
    have prepares := @resolves_prepareBlock host feedback True True focal linker (fun _ => reliable) block own
      (fun _ => candidates) filled
    refine prepares.told.mono ?_
    rintro _ _ ⟨_, rfl, _⟩
    exact valued.symm
  · rw [if_neg valued] at candidates
    have empty : block.isEmpty := by rw [Block.isEmpty, candidates]; rfl
    unfold prepareBlock
    rw [if_pos empty]
    refine (Action.ensures_bind _ _ _).mpr ((Action.told_pointer focal).mono fun _ _ _ => ?_)
    exact (Bool.eq_false_iff.mpr valued).symm

namespace System

variable {host : Host} {linker : Linker} {system middle after : System} {focal : EntityKey} {sets : IdSet}
  {limit : Nat}

structure Quiet (host : Host) (system : System) : Prop extends system.Informed host where
  sound : system.store.tables.matched.Sound
  free : system.locks = .empty
  prompt : ∀ reading, system.readings ≤ reading → system.index.Precedes (system.clock reading)

structure Works (host : Host) (linker : Linker) (entities : List EntityKey) (system after : System) : Prop where
  quiet : after.Quiet host
  stamped : system.index.Stamped after.index
  linked : ∀ entity ∈ entities, linker.linkable host entity → ∀ sets, entity ∉ after.index.pending sets
  idle : (∀ entity ∈ entities, linker.linkable host entity = false) → system.Recached after

theorem Quiet.idle (quiet : system.Quiet host) : system.Idle host (system.graph system.lastTick) where
  toInformed := quiet.toInformed
  depicted := depicts_self quiet.sound
  locks := quiet.free

theorem Recached.refl (system : System) : system.Recached system := rfl

theorem Recached.index (recached : system.Recached after) : after.index = system.index := by
  rw [recached]

theorem Works.none (quiet : system.Quiet host) : system.Works host linker [] system where
  quiet := quiet
  stamped := .refl _
  linked := nofun
  idle _ := .refl _

theorem Works.cons {entities : List EntityKey} (first : system.Works host linker [focal] middle)
    (rest : middle.Works host linker entities after) : system.Works host linker (focal :: entities) after where
  quiet := rest.quiet
  stamped := first.stamped.trans rest.stamped
  linked := by
    refine List.forall_mem_cons.mpr ⟨fun valued sets waits => ?_, rest.linked⟩
    exact first.linked focal (.head _) valued sets ((rest.stamped.sublist sets).subset waits)
  idle blank :=
    have ⟨own, others⟩ := List.forall_mem_cons.mp blank
    (first.idle (List.forall_mem_singleton.mpr own)).trans (rest.idle others)

theorem Quiet.ensures_link (quiet : system.Quiet host) (reliable : host.Reliable) (knows : host.Knows focal) :
    (linker.link focal).Ensures (AnswersBy host False) Available (fun _ _ => False)
      (fun _ after => system.Works host linker [focal] after) system := by
  have passes := quiet.idle.ensures_link (linker.told_prepare reliable knows)
  have stamps : Program.Ensures (AnswersBy host False) _ _ (linker.link focal).run system :=
    ensures_ledger (fun _ _ _ _ => And.left) quiet.prompt (Action.does_link linker focal quiet.sound)
  refine Program.Ensures.mono (Program.Ensures.and passes stamps) ?_
  rintro (error | outcome) after ⟨ended, ledger, clock⟩
  · exact ended
  obtain ⟨image, idle, found⟩ := ended
  have kept (stamped : system.index.Stamped after.index) : after.Quiet host :=
    ⟨idle.toInformed, idle.depicted.sound, idle.locks, fun reading later => stamped.precedes (clock reading later)⟩
  rcases ledger with ⟨skipped, same⟩ | ⟨linked, cluster, joining, joins, points⟩
  · have index : after.index = system.index := congrArg Ledger.index same
    have stamped : system.index.Stamped after.index := index ▸ .refl _
    obtain ⟨blank, _, recached⟩ | ⟨_, _, _, _, _, _, settles⟩ := found
    · refine ⟨kept stamped, stamped, List.forall_mem_singleton.mpr fun valued => ?_, fun _ => recached⟩
      exact absurd (blank.trans valued) Bool.false_ne_true
    · rw [settles.reports.linked] at skipped
      cases skipped
  · have stamped := Index.stamped_of_points points
    refine ⟨kept stamped, stamped, List.forall_mem_singleton.mpr fun _ => ?_, fun blank => ?_⟩
    · exact Index.not_pending_of_points points joins
    · obtain ⟨_, skipped, _⟩ | ⟨_, valued, _⟩ := found
      · rw [linked] at skipped
        cases skipped
      · exact absurd ((blank focal (.head _)).symm.trans valued.symm) Bool.false_ne_true

theorem Quiet.ensures_linkAll (quiet : system.Quiet host) (reliable : host.Reliable) {entities : List EntityKey}
    (knows : ∀ entity ∈ entities, host.Knows entity) :
    (linker.linkAll entities).Ensures (AnswersBy host False) Available (fun _ _ => False)
      (fun _ after => system.Works host linker entities after) system := by
  induction entities generalizing system with
  | nil => exact (Action.ensures_pure _ _).mpr (.none quiet)
  | cons entity entities ih =>
      obtain ⟨own, others⟩ := List.forall_mem_cons.mp knows
      refine (Action.ensures_bind _ _ _).mpr ((quiet.ensures_link reliable own).mono fun _ middle first => ?_)
      exact (ih first.quiet others).mono fun _ after rest => first.cons rest

structure Rounds (host : Host) (linker : Linker) (sets : IdSet) (limit : Nat) (system : System)
    (batch : List EntityKey) (after : System) : Prop extends system.Works host linker batch after where
  given : batch = (system.index.pending sets).take limit

theorem ensures_needingLinking (system : System) (sets : IdSet) (limit : Nat) :
    (ClusterGraph.needingLinking sets limit).Ensures (AnswersBy host False) Available (fun _ _ => False)
      (fun batch after => batch = (system.index.pending sets).take limit ∧ after = system) system := by
  refine ⟨nofun, ?_⟩
  rintro (error | batch) after ⟨possible, served⟩
  · exact served.resolve_left id
  · exact possible

theorem Quiet.ensures_round (quiet : system.Quiet host) (reliable : host.Reliable)
    (knows : ∀ entity : EntityKey, entity.set ∈ sets → host.Knows entity) :
    (linker.round sets limit).Ensures (AnswersBy host False) Available (fun _ _ => False)
      (fun batch after => system.Rounds host linker sets limit batch after) system := by
  refine (Action.ensures_bind _ _ _).mpr ((ensures_needingLinking system sets limit).mono ?_)
  rintro _ _ ⟨rfl, rfl⟩
  refine (Action.ensures_bind _ _ _).mpr ((quiet.ensures_linkAll reliable fun entity listed => ?_).mono ?_)
  · exact knows entity (Index.mem_pending.mp (List.mem_of_mem_take listed)).1
  · exact fun _ after works => (Action.ensures_pure _ _).mpr ⟨works, rfl⟩

/-- If one of a batch from the queue is linkable then the queue has fewer of them, and is shorter. -/
theorem Works.fewer {batch : List EntityKey} (works : system.Works host linker batch after)
    (taken : batch ⊆ system.index.pending sets) (some : ∃ entity ∈ batch, linker.linkable host entity) :
    (after.index.pending sets).countP (linker.linkable host) <
        (system.index.pending sets).countP (linker.linkable host) ∧
      (after.index.pending sets).length < (system.index.pending sets).length := by
  obtain ⟨entity, listed, valued⟩ := some
  have off := works.linked entity listed valued sets
  have rest : List.Subperm (entity :: after.index.pending sets) (system.index.pending sets) :=
    List.subperm_of_subset (List.nodup_cons.mpr ⟨off, (Index.ascending_pending _ _).nodup⟩)
      (List.cons_subset.mpr ⟨taken listed, (works.stamped.sublist sets).subset⟩)
  have counts := rest.countP_le (linker.linkable host)
  rw [List.countP_cons_of_pos valued] at counts
  exact ⟨counts, rest.length_le⟩

/-- What some rounds come to. If there are no fewer of them than linkable entities then only others are left in the
first places; and where these are taken by others to begin with, nothing is ever done. -/
structure Drains (host : Host) (linker : Linker) (sets : IdSet) (limit rounds : Nat) (system : System)
    (answer : List EntityKey) (after : System) : Prop where
  quiet : after.Quiet host
  given : answer = (after.index.pending sets).take limit
  rest : (after.index.pending sets).Sublist (system.index.pending sets)
  blank : (system.index.pending sets).countP (linker.linkable host) ≤ rounds →
    ∀ entity ∈ answer, linker.linkable host entity = false
  stuck : (∀ entity ∈ (system.index.pending sets).take limit, linker.linkable host entity = false) →
    system.Recached after

/-- Fewer entities than there are places cannot keep a linkable one from them. -/
theorem Drains.served {rounds : Nat} {answer : List EntityKey}
    (drains : system.Drains host linker sets limit rounds answer after)
    (enough : (system.index.pending sets).countP (linker.linkable host) ≤ rounds)
    (few : (system.index.pending sets).countP (fun entity => !linker.linkable host entity) < limit) :
    ∀ entity ∈ after.index.pending sets, linker.linkable host entity = false := by
  have blank := drains.blank enough
  rw [drains.given] at blank
  have left : (after.index.pending sets).countP (fun entity => !linker.linkable host entity) ≤ _ :=
    drains.rest.countP_le
  have first : ((after.index.pending sets).take limit).countP (fun entity => !linker.linkable host entity) ≤ _ :=
    (List.take_sublist _ _).countP_le
  rw [List.countP_eq_length.mpr fun entity listed => by simp [blank entity listed], List.length_take] at first
  rwa [List.take_of_length_le (by omega)] at blank

/-- A round that finds nobody is the last one. -/
theorem Rounds.done {rounds : Nat} (last : system.Rounds host linker sets limit [] after) (positive : 1 ≤ limit) :
    system.Drains host linker sets limit rounds [] after := by
  have rest := last.stamped.sublist sets
  have none : system.index.pending sets = [] :=
    (List.take_eq_nil_iff.mp last.given.symm).resolve_left (Nat.ne_zero_of_lt positive)
  have same : after.index.pending sets = [] := List.eq_nil_of_sublist_nil (none ▸ rest)
  refine ⟨last.quiet, ?_, rest, fun _ => nofun, fun _ => last.idle nofun⟩
  rw [same, List.take_nil]

theorem Rounds.drains {rounds : Nat} {batch answer : List EntityKey}
    (first : system.Rounds host linker sets limit batch middle)
    (rest : middle.Drains host linker sets limit rounds answer after) :
    system.Drains host linker sets limit (rounds + 1) answer after := by
  have fewer := first.stamped.sublist sets
  have given := first.given
  by_cases some : ∃ entity ∈ batch, linker.linkable host entity
  · have less := (first.fewer (given ▸ List.take_subset limit _) some).1
    refine ⟨rest.quiet, rest.given, rest.rest.trans fewer, fun enough => rest.blank (by omega), fun blank => ?_⟩
    obtain ⟨entity, listed, valued⟩ := some
    exact absurd ((blank entity (given ▸ listed)).symm.trans valued) Bool.false_ne_true
  · have blank : ∀ entity ∈ batch, linker.linkable host entity = false :=
      fun entity listed => Bool.eq_false_iff.mpr fun valued => some ⟨entity, listed, valued⟩
    -- The later rounds find the queue as this one has found it.
    have same := first.idle blank
    rw [given] at blank
    have idle := same.trans (rest.stuck (same.index ▸ blank))
    refine ⟨rest.quiet, rest.given, rest.rest.trans fewer, fun _ => ?_, fun _ => idle⟩
    rw [rest.given, idle.index]
    exact blank

theorem Quiet.ensures_drain (quiet : system.Quiet host) (reliable : host.Reliable)
    (knows : ∀ entity : EntityKey, entity.set ∈ sets → host.Knows entity) (positive : 1 ≤ limit) (rounds : Nat) :
    (linker.drain sets limit rounds).Ensures (AnswersBy host False) Available (fun _ _ => False)
      (fun answer after => system.Drains host linker sets limit rounds answer after) system := by
  induction rounds generalizing system with
  | zero =>
      refine (ensures_needingLinking system sets limit).mono ?_
      rintro _ _ ⟨rfl, rfl⟩
      refine ⟨quiet, rfl, .refl _, fun none entity listed => ?_, fun _ => .refl _⟩
      have blank := List.countP_eq_zero.mp (Nat.le_zero.mp none) entity (List.mem_of_mem_take listed)
      exact Bool.eq_false_iff.mpr blank
  | succ rounds ih =>
      refine (Action.ensures_bind _ _ _).mpr ((quiet.ensures_round reliable knows).mono ?_)
      intro batch middle first
      split
      · rename_i empty
        rw [List.isEmpty_iff.mp empty] at first ⊢
        exact (Action.ensures_pure _ _).mpr (first.done positive)
      · exact (ih first.quiet).mono fun _ after rest => first.drains rest

/-- The loop over the queue, with no one else at work, a host that serves and sets that the host knows. No round
fails, and one that has a linkable entity in the first places makes the queue shorter. As long as the others are
fewer than these places, all linkable entities are off the queue after as many rounds; if there are no others then
it is empty. -/
theorem drained_of_quiet (quiet : system.Quiet host) (reliable : host.Reliable)
    (knows : ∀ entity : EntityKey, entity.set ∈ sets → host.Knows entity) (positive : 1 ≤ limit) :
    (linker.round sets limit).Ensures (AnswersBy host False) Available (fun _ _ => False)
      (fun batch after => system.Rounds host linker sets limit batch after ∧
        (after.index.pending sets).Sublist (system.index.pending sets) ∧
        ((∃ entity ∈ batch, linker.linkable host entity) →
          (after.index.pending sets).length < (system.index.pending sets).length)) system ∧
    ∀ rounds, (linker.drain sets limit rounds).Ensures (AnswersBy host False) Available (fun _ _ => False)
      (fun answer after => system.Drains host linker sets limit rounds answer after ∧
        ((system.index.pending sets).countP (linker.linkable host) ≤ rounds →
          ((system.index.pending sets).countP (fun entity => !linker.linkable host entity) < limit →
            ∀ entity ∈ after.index.pending sets, linker.linkable host entity = false) ∧
          ((∀ entity ∈ system.index.pending sets, linker.linkable host entity) → answer = []))) system := by
  refine ⟨(quiet.ensures_round reliable knows).mono fun batch after rounds => ?_, fun rounds => ?_⟩
  · exact ⟨rounds, rounds.stamped.sublist sets,
      fun some => (rounds.fewer (rounds.given ▸ List.take_subset limit _) some).2⟩
  refine (quiet.ensures_drain reliable knows positive rounds).mono fun answer after drains => ?_
  refine ⟨drains, fun enough => ⟨drains.served enough, fun valued => ?_⟩⟩
  refine List.eq_nil_iff_forall_not_mem.mpr fun entity listed => ?_
  have waits := drains.rest.subset (List.mem_of_mem_take (drains.given ▸ listed))
  exact absurd ((drains.blank enough entity listed).symm.trans (valued entity waits)) Bool.false_ne_true

end System

namespace Sample

def sets : IdSet := .ofList [set]

def queued : System := { start with index := (start.index.recordWrite left noon).recordWrite right noon }

def blank : Host
  | .loadOne _ => .ok ∅
  | call => host call

def unvalued : System := { written with host := blank }

theorem lastWrite_recordWrite {index : Index} (before : ∀ (entity : EntityKey) record,
    index[entity]? = some record → record.lastWrite = noon) (writing : EntityKey) :
    ∀ (entity : EntityKey) record, (index.recordWrite writing noon)[entity]? = some record →
      record.lastWrite = noon := by
  intro entity record found
  rw [Index.getElem?_recordWrite] at found
  split at found
  · exact Option.some.inj found ▸ rfl
  · exact before entity record found

theorem quiet_of_noon {host : Host} {index : Index} (written : ∀ (entity : EntityKey) record,
    index[entity]? = some record → record.lastWrite = noon) : { start with host, index }.Quiet host where
  coherent := ⟨FeedbackTable.sound_empty, Cache.faithful_of_empty rfl⟩
  types := Cache.faithful_of_empty rfl
  sets := Cache.faithful_of_empty rfl
  sound := MatchTable.sound_empty
  free := rfl
  prompt reading _ entity record found := by
    rw [written entity record found]
    change noon.after noon = false
    decide +kernel

theorem host_reliable : host.Reliable where
  succeeds := host_succeeds
  inUnit _ _ _ scored := by
    obtain rfl := Except.ok.inj scored
    decide

theorem blank_reliable : blank.Reliable where
  succeeds request := by
    cases request with
    | loadOne => trivial
    | loadMany set keys => exact host_succeeds (.loadMany set keys)
    | _ => trivial
  inUnit := host_reliable.inUnit

/-- Both entities are off the queue after one round with room for one. -/
theorem drained_of_queued :
    queued.Quiet host ∧ host.Reliable ∧ (∀ entity : EntityKey, entity.set ∈ sets → host.Knows entity) ∧
    1 ≤ 1 ∧ queued.index.pending sets = [left, right] ∧
    (linker.drain sets 1 2).Ensures (System.AnswersBy host False) System.Available (fun _ _ => False)
      (fun answer _ => answer = []) queued := by
  have quiet : queued.Quiet host :=
    quiet_of_noon (lastWrite_recordWrite (lastWrite_recordWrite (by simp [start, System.fresh]) left) right)
  have knows (entity : EntityKey) (_ : entity.set ∈ sets) : host.Knows entity := ⟨type, rfl⟩
  have waiting : queued.index.pending sets = [left, right] := by decide +kernel
  refine ⟨quiet, host_reliable, knows, Nat.le_refl 1, waiting, ?_⟩
  have drains := (@System.drained_of_quiet _ linker _ _ _ quiet host_reliable knows (Nat.le_refl 1)).2 2
  refine drains.mono fun answer after drained => ?_
  rw [waiting] at drained
  exact (drained.2 (by decide +kernel)).2 (by decide +kernel)

/-- An entity of which nothing is known stays at the head of the queue, however many rounds there are. -/
theorem undrained_unvalued :
    unvalued.Quiet blank ∧ blank.Reliable ∧
    (∀ entity : EntityKey, entity.set ∈ sets → blank.Knows entity) ∧
    unvalued.index.pending sets = [left] ∧
    ((linker.round sets 1).run.run System.answer? unvalued).1.result?.any (fun
      | .ok batch => batch = [left]
      | .error _ => false) ∧
    ∀ rounds, (linker.drain sets 1 rounds).Ensures (System.AnswersBy blank False) System.Available
      (fun _ _ => False) (fun answer after => answer = [left] ∧ after.index.pending sets = [left])
      unvalued := by
  have quiet : unvalued.Quiet blank := quiet_of_noon (lastWrite_recordWrite (by simp [start, System.fresh]) left)
  have knows (entity : EntityKey) (_ : entity.set ∈ sets) : blank.Knows entity := ⟨type, rfl⟩
  have waiting : unvalued.index.pending sets = [left] := by decide +kernel
  refine ⟨quiet, blank_reliable, knows, waiting, by decide +kernel, fun rounds => ?_⟩
  have drains := @System.Quiet.ensures_drain _ linker _ _ _ quiet blank_reliable knows (Nat.le_refl 1) rounds
  refine drains.mono fun answer after drained => ?_
  have recached := drained.stuck (by rw [waiting]; decide +kernel)
  have given := drained.given
  rw [recached.index, waiting] at given
  exact ⟨given, recached.index ▸ waiting⟩

end Sample

end RecordLinkage
