import Mathlib.Logic.Relation
import RecordLinkage.Proofs.Linking.Stamps

/-! Writes of the data layer beside passes, in any order. A write stores new properties, reads the clock and
records the time; a pass loads properties, and reads the clock again for each entity that it links. An
entity is in the queue just if its last write read the clock after its last link did. So it misses a write
that comes between what a pass loads and the stamp of the pass. -/

namespace RecordLinkage

namespace Instant

variable {clock : Nat → Instant}

/-- On a clock that never goes backwards, a time is after another one only if it was read later. -/
theorem after_iff_of_forward (forward : ∀ earlier later, earlier ≤ later → ¬(clock earlier).after (clock later))
    {first second : Nat} :
    (clock second).after (clock first) ↔ first < second ∧ clock first ≠ clock second := by
  constructor
  · intro after
    refine ⟨Nat.lt_of_not_le fun order => forward second first order after, fun same => ?_⟩
    simp [Instant.after, same, Std.ReflOrd.compare_self] at after
  · rintro ⟨order, apart⟩
    have kept := forward first second (Nat.le_of_lt order)
    simp only [Instant.after, decide_eq_true_eq] at kept ⊢
    cases compared : compare (clock second) (clock first) with
    | gt => rfl
    | eq => exact absurd (Std.LawfulEqOrd.eq_of_compare compared).symm apart
    | lt => exact absurd (Std.OrientedCmp.gt_of_lt compared) kept

end Instant

namespace Index

variable {index : Index} {entity : EntityKey}

theorem times_tombstone (index : Index) (entity other : EntityKey) :
    (index.tombstone entity).2[other]?.map IndexRecord.lastWrite = index[other]?.map IndexRecord.lastWrite ∧
    (index.tombstone entity).2[other]?.bind IndexRecord.lastLink = index[other]?.bind IndexRecord.lastLink := by
  rw [getElem?_tombstone]
  split
  · cases index[other]? <;> exact ⟨rfl, rfl⟩
  · exact ⟨rfl, rfl⟩

theorem mem_select {sets : IdSet} {limit : Nat} {test : IndexRecord → Bool} (enough : index.size ≤ limit) :
    entity ∈ index.select sets limit test ↔
      entity.set ∈ sets ∧ ∃ record, index[entity]? = some record ∧ record.isLive ∧ test record := by
  have short : ∀ test, ((index.toList.filter test).map Prod.fst).length ≤ limit := by
    intro test
    rw [List.length_map]
    refine Nat.le_trans (List.length_filter_le _ _) ?_
    rwa [Std.ExtTreeMap.length_toList]
  rw [select, List.take_of_length_le (short _)]
  simp only [List.mem_map, List.mem_filter, Bool.and_eq_true, Std.ExtTreeSet.contains_iff_mem, Prod.exists,
    Std.ExtTreeMap.mem_toList_iff_getElem?_eq_some]
  constructor
  · rintro ⟨_, record, ⟨known, ⟨listed, live⟩, holds⟩, rfl⟩
    exact ⟨listed, record, known, live, holds⟩
  · rintro ⟨listed, record, known, live, holds⟩
    exact ⟨entity, record, ⟨known, ⟨listed, live⟩, holds⟩, rfl⟩

end Index

/-- What becomes of the properties of an entity, and of the times in its record. These are told by the number
of the reading of the clock. -/
inductive DataEvent where
  | stored (entity : EntityKey)
  | written (entity : EntityKey) (reading : Nat)
  | loaded (pass : Nat) (entity : EntityKey)
  | linked (pass : Nat) (entity : EntityKey) (reading : Nat)
deriving DecidableEq

namespace DataEvent

def writtenAt? (entity : EntityKey) : DataEvent → Option Nat
  | written other reading => if entity = other then some reading else none
  | _ => none

def linkedAt? (entity : EntityKey) : DataEvent → Option (Nat × Nat)
  | linked pass other reading => if entity = other then some (pass, reading) else none
  | _ => none

def ofCall (pass reading : Nat) : (call : Call) → call.Answer → List DataEvent
  | .host (.loadOne entity), .ok _ => [loaded pass entity]
  | .host (.loadMany set _), answer => (Loaded.ofAnswer set answer).filterMap fun item =>
      item.toOption.map fun (entity, _) => loaded pass entity
  | .index (.setCluster entity _ _), .ok (_ + 1) => [linked pass entity reading]
  | _, _ => []

end DataEvent

def System.readingAfter (system : System) (reading : Nat) : Call → Nat
  | .now => system.readings
  | _ => reading

structure LinkPass where
  rest : Program (Except LinkError LinkOutcome)
  reading : Nat

structure DataWrite where
  entity : EntityKey
  reading : Option Nat
deriving DecidableEq

structure Traffic where
  system : System
  passes : List LinkPass
  writes : List DataWrite
  history : List DataEvent

namespace Traffic

def start (system : System) (linkers : List (Linker × EntityKey)) : Traffic :=
  ⟨system, linkers.map fun (linker, focal) => ⟨(linker.link focal).run, 0⟩, [], []⟩

def called (traffic : Traffic) (place : Nat) (pass : LinkPass) {call : Call} (next : call.Answer →
    Program (Except LinkError LinkOutcome)) (answer : call.Answer) (after : System) : Traffic :=
  { traffic with
    system := after
    passes := traffic.passes.set place ⟨next answer, traffic.system.readingAfter pass.reading call⟩
    history := DataEvent.ofCall place pass.reading call answer ++ traffic.history }

def stored (traffic : Traffic) (entity : EntityKey) (host : Host) : Traffic :=
  { traffic with
    system := { traffic.system with host }
    writes := traffic.writes ++ [⟨entity, none⟩]
    history := .stored entity :: traffic.history }

def timed (traffic : Traffic) (place : Nat) (entity : EntityKey) : Traffic :=
  { traffic with
    system := traffic.system.read
    writes := traffic.writes.set place ⟨entity, some traffic.system.readings⟩ }

def recorded (traffic : Traffic) (place : Nat) (entity : EntityKey) (reading : Nat) : Traffic :=
  { traffic with
    system := { traffic.system with
      index := traffic.system.index.recordWrite entity (traffic.system.clock reading) }
    writes := traffic.writes.eraseIdx place
    history := .written entity reading :: traffic.history }

def buried (traffic : Traffic) (entity : EntityKey) : Traffic :=
  { traffic with
    system := { traffic.system with index := (traffic.system.index.tombstone entity).2 } }

inductive Step (traffic : Traffic) : Traffic → Prop
  | call {place : Nat} {pass : LinkPass} {call : Call}
      {next : call.Answer → Program (Except LinkError LinkOutcome)} {answer : call.Answer} {after : System} :
      traffic.passes[place]? = some pass → pass.rest = .ask call next →
      System.Answers True traffic.system call answer after →
      Step traffic (traffic.called place pass next answer after)
  | store (entity : EntityKey) (host : Host) : Step traffic (traffic.stored entity host)
  | read {place : Nat} {entity : EntityKey} :
      traffic.writes[place]? = some ⟨entity, none⟩ → Step traffic (traffic.timed place entity)
  | record {place : Nat} {entity : EntityKey} {reading : Nat} :
      traffic.writes[place]? = some ⟨entity, some reading⟩ →
      Step traffic (traffic.recorded place entity reading)
  | bury (entity : EntityKey) : Step traffic (traffic.buried entity)

abbrev Steps : Traffic → Traffic → Prop := Relation.ReflTransGen Step

def writtenAt? (traffic : Traffic) (entity : EntityKey) : Option Nat :=
  traffic.history.findSome? (DataEvent.writtenAt? entity)

def linkedAt? (traffic : Traffic) (entity : EntityKey) : Option (Nat × Nat) :=
  traffic.history.findSome? (DataEvent.linkedAt? entity)

end Traffic

namespace DataEvent

variable {pass reading : Nat} {call : Call} {answer : call.Answer}

theorem mem_ofCall {event : DataEvent} (listed : event ∈ ofCall pass reading call answer) :
    (∃ entity, event = loaded pass entity) ∨ call.Stamps ∧ ∃ entity, event = linked pass entity reading := by
  unfold ofCall at listed
  split at listed
  · exact .inl ⟨_, List.mem_singleton.mp listed⟩
  · obtain ⟨item, _, same⟩ := List.mem_filterMap.mp listed
    obtain ⟨_, _, rfl⟩ := Option.map_eq_some_iff.mp same
    exact .inl ⟨_, rfl⟩
  · exact .inr ⟨trivial, _, List.mem_singleton.mp listed⟩
  · contradiction

theorem writtenAt?_ofCall (entity : EntityKey) :
    (ofCall pass reading call answer).findSome? (writtenAt? entity) = none := by
  rw [List.findSome?_eq_none_iff]
  intro event listed
  rcases mem_ofCall listed with ⟨_, rfl⟩ | ⟨_, _, rfl⟩ <;> rfl

theorem linkedAt?_ofCall (other : ¬call.Stamps) (entity : EntityKey) :
    (ofCall pass reading call answer).findSome? (linkedAt? entity) = none := by
  rw [List.findSome?_eq_none_iff]
  intro event listed
  rcases mem_ofCall listed with ⟨_, rfl⟩ | ⟨stamps, _⟩
  · rfl
  · exact absurd stamps other

end DataEvent

namespace System

variable {system after : System} {call : Call} {answer : call.Answer}

theorem MayAnswer.index_of_not_stamps (possible : system.MayAnswer call answer after) (other : ¬call.Stamps) :
    after.index = system.index := by
  cases call with
  | index request =>
      cases answer with
      | error error => exact possible ▸ rfl
      | ok answer =>
          obtain ⟨_, rfl⟩ := possible
          cases request with
          | setCluster => exact absurd trivial other
          | _ => rfl
  | _ => exact possible.fixes.index (by simp)

/-- What an answered call of a pass does to the times in the index. -/
theorem MayAnswer.times (possible : system.MayAnswer call answer after) (pass : Nat) {reading : Nat}
    {seen : Option Instant} (stamps : Linking.StampsSeen seen call)
    (told : ∀ time, seen = some time → time = system.clock reading) (entity : EntityKey) :
    after.index[entity]?.map IndexRecord.lastWrite = system.index[entity]?.map IndexRecord.lastWrite ∧
    after.index[entity]?.bind IndexRecord.lastLink =
      (((DataEvent.ofCall pass reading call answer).findSome? (DataEvent.linkedAt? entity)).map
        fun (_, reading) => system.clock reading).or (system.index[entity]?.bind IndexRecord.lastLink) := by
  by_cases links : call.Stamps
  · obtain ⟨other, cluster, linkedAt, rfl⟩ := links.eq
    cases answer with
    | error error =>
        obtain rfl := possible
        exact ⟨rfl, rfl⟩
    | ok count =>
        obtain ⟨rfl, rfl⟩ := possible
        obtain rfl := told linkedAt stamps
        simp only [Index.answer, Index.getElem?_setCluster]
        by_cases same : other = entity
        · subst same
          cases known : system.index[other]? <;>
            simp [Index.setCluster, known, DataEvent.ofCall, DataEvent.linkedAt?]
        · cases known : system.index[other]? <;>
            simp [Index.setCluster, known, DataEvent.ofCall, DataEvent.linkedAt?, same, Ne.symm same]
  · rw [possible.index_of_not_stamps links, DataEvent.linkedAt?_ofCall links]
    exact ⟨rfl, rfl⟩

/-- A caller that knows the time of its last reading still does after a call. -/
theorem MayAnswer.clocked (possible : system.MayAnswer call answer after) {reading : Nat} {seen : Option Instant}
    (told : ∀ time, seen = some time → time = system.clock reading) :
    ∃ later, Linking.Clocked seen call answer later ∧
      ∀ time, later = some time → time = system.clock (system.readingAfter reading call) := by
  cases call with
  | now =>
      simp only [MayAnswer, answer?, Option.some.injEq, Prod.mk.injEq] at possible
      refine ⟨some answer, rfl, ?_⟩
      rintro _ ⟨rfl⟩
      exact possible.1.symm
  | _ => exact ⟨seen, rfl, told⟩

end System

namespace Traffic

def Stamping (clock : Nat → Instant) (pass : LinkPass) : Prop :=
  ∃ seen, (∀ time, seen = some time → time = clock pass.reading) ∧
    pass.rest.Ensures Linking.Clocked Linking.StampsSeen (fun _ _ => True) seen

structure Recorded (start : System) (traffic : Traffic) : Prop where
  clock : traffic.system.clock = start.clock
  passes : ∀ pass ∈ traffic.passes, Stamping start.clock pass
  written : ∀ entity reading, traffic.writtenAt? entity = some reading →
    traffic.system.index[entity]?.map IndexRecord.lastWrite = some (start.clock reading)
  linked : ∀ entity, traffic.system.index[entity]?.bind IndexRecord.lastLink =
    ((traffic.linkedAt? entity).map fun (_, reading) => start.clock reading).or
      (start.index[entity]?.bind IndexRecord.lastLink)

theorem recorded_start (system : System) (linkers : List (Linker × EntityKey)) :
    (start system linkers).Recorded system where
  clock := rfl
  passes := by
    intro pass listed
    obtain ⟨⟨linker, focal⟩, _, rfl⟩ := List.mem_map.mp listed
    refine ⟨none, fun _ unseen => (nomatch unseen), ?_⟩
    exact Program.Ensures.mono (Action.stamps_link linker focal none) fun _ _ _ => trivial
  written := by
    intro entity reading written
    have none : (Traffic.start system linkers).writtenAt? entity = none := rfl
    rw [none] at written
    contradiction
  linked := fun _ => rfl

variable {start : System} {traffic after : Traffic}

theorem Recorded.call (recorded : traffic.Recorded start) {place : Nat} {pass : LinkPass} {call : Call}
    {next : call.Answer → Program (Except LinkError LinkOutcome)} {answer : call.Answer} {system : System}
    (found : traffic.passes[place]? = some pass) (asks : pass.rest = .ask call next)
    (possible : traffic.system.MayAnswer call answer system) :
    (traffic.called place pass next answer system).Recorded start := by
  obtain ⟨seen, told, ensured⟩ := recorded.passes pass (List.mem_of_getElem? found)
  rw [asks] at ensured
  obtain ⟨stamps, goesOn⟩ := ensured
  have tells : ∀ time, seen = some time → time = traffic.system.clock pass.reading := recorded.clock ▸ told
  have times := fun entity => possible.times place stamps tells entity
  constructor
  case clock => exact possible.fixes.clock.trans recorded.clock
  case passes =>
    intro other listed
    rcases List.mem_or_eq_of_mem_set listed with old | rfl
    · exact recorded.passes other old
    · obtain ⟨later, clocked, tells⟩ := possible.clocked tells
      exact ⟨later, recorded.clock ▸ tells, goesOn answer later clocked⟩
  case written =>
    intro entity reading written
    rw [writtenAt?, called, List.findSome?_append, DataEvent.writtenAt?_ofCall, Option.none_or] at written
    exact (times entity).1.trans (recorded.written entity reading written)
  case linked =>
    intro entity
    rw [linkedAt?, called, List.findSome?_append, Option.map_or, Option.or_assoc]
    refine (times entity).2.trans ?_
    rw [recorded.linked entity, recorded.clock]
    rfl

theorem Recorded.store (recorded : traffic.Recorded start) (entity : EntityKey) (host : Host) :
    (traffic.stored entity host).Recorded start :=
  ⟨recorded.clock, recorded.passes, recorded.written, recorded.linked⟩

theorem Recorded.read (recorded : traffic.Recorded start) (place : Nat) (entity : EntityKey) :
    (traffic.timed place entity).Recorded start :=
  ⟨recorded.clock, recorded.passes, recorded.written, recorded.linked⟩

theorem Recorded.record (recorded : traffic.Recorded start) (place : Nat) (entity : EntityKey) (reading : Nat) :
    (traffic.recorded place entity reading).Recorded start where
  clock := recorded.clock
  passes := recorded.passes
  written := by
    intro other later written
    simp only [writtenAt?, Traffic.recorded, List.findSome?_cons, DataEvent.writtenAt?] at written
    simp only [Traffic.recorded, Index.getElem?_recordWrite]
    by_cases same : entity = other
    · simp_all [recorded.clock]
    · rw [if_neg same]
      refine recorded.written other later ?_
      simpa [writtenAt?, Ne.symm same] using written
  linked := by
    intro other
    refine Eq.trans ?_ (recorded.linked other)
    simp only [Traffic.recorded, Index.getElem?_recordWrite, Std.ExtTreeMap.getD_eq_getD_getElem?]
    split
    · rename_i same
      rw [← same]
      cases traffic.system.index[entity]? <;> rfl
    · rfl

theorem Recorded.bury (recorded : traffic.Recorded start) (entity : EntityKey) :
    (traffic.buried entity).Recorded start where
  clock := recorded.clock
  passes := recorded.passes
  written := fun other reading written =>
    (traffic.system.index.times_tombstone entity other).1.trans (recorded.written other reading written)
  linked := fun other => (traffic.system.index.times_tombstone entity other).2.trans (recorded.linked other)

theorem Recorded.step (recorded : traffic.Recorded start) (step : Step traffic after) :
    after.Recorded start := by
  cases step with
  | call found asks answered => exact recorded.call found asks answered.1
  | store entity host => exact recorded.store entity host
  | read _ => exact recorded.read _ _
  | record _ => exact recorded.record _ _ _
  | bury entity => exact recorded.bury entity

theorem recorded_of_steps {linkers : List (Linker × EntityKey)} (steps : Steps (.start start linkers) traffic) :
    traffic.Recorded start := by
  induction steps with
  | refl => exact recorded_start start linkers
  | tail _ step ih => exact ih.step step

/-- Whatever passes and writes go on beside each other, a live entity is in the queue just if the last of its
writes read the clock after the last pass that linked it did, and the clock had moved on. So no write is
lost that begins after an entity was linked; one that begins before is lost, also if the pass did not
load what it stored. -/
theorem needing_iff_written_later {linkers : List (Linker × EntityKey)}
    (forward : ∀ earlier later, earlier ≤ later → ¬(start.clock earlier).after (start.clock later))
    (steps : Steps (.start start linkers) traffic) {entity : EntityKey} {record : IndexRecord}
    (known : traffic.system.index[entity]? = some record) (live : record.isLive)
    {written : Nat} (wrote : traffic.writtenAt? entity = some written)
    {sets : IdSet} {limit : Nat} (listed : entity.set ∈ sets) (enough : traffic.system.index.size ≤ limit) :
    ∃ rows, ((ClusterGraph.needingLinking sets limit).run.run System.answer? traffic.system).1 =
        .done (.ok rows) ∧
      (∀ pass linked, traffic.linkedAt? entity = some (pass, linked) →
        (entity ∈ rows ↔ linked < written ∧ start.clock linked ≠ start.clock written)) ∧
      (traffic.linkedAt? entity = none → start.index[entity]?.bind IndexRecord.lastLink = none →
        entity ∈ rows) := by
  have recorded := recorded_of_steps steps
  have lastWrite : record.lastWrite = start.clock written := by
    simpa [known] using recorded.written entity written wrote
  have lastLink := recorded.linked entity
  rw [known, Option.bind_some] at lastLink
  have queued : entity ∈ traffic.system.index.select sets limit IndexRecord.needsLinking ↔
      record.lastLink.all fun linked => (start.clock written).after linked := by
    rw [Index.mem_select enough]
    simp [listed, known, live, IndexRecord.needsLinking, lastWrite]
  refine ⟨_, rfl, ?_, ?_⟩
  · intro pass linked last
    rw [queued, lastLink, last]
    exact Instant.after_iff_of_forward forward
  · intro unlinked before
    rw [queued, lastLink, unlinked, before]
    rfl

inductive Move where
  | call (place : Nat)
  | store (entity : EntityKey) (host : Host)
  | read (place : Nat)
  | record (place : Nat)

def advance? (traffic : Traffic) : Move → Option Traffic
  | .call place => do
      let pass ← traffic.passes[place]?
      match pass.rest with
      | .done _ => none
      | .ask call next =>
          let (answer, after) ← traffic.system.answer? call
          return traffic.called place pass next answer after
  | .store entity host => some (traffic.stored entity host)
  | .read place =>
      match traffic.writes[place]? with
      | some ⟨entity, none⟩ => some (traffic.timed place entity)
      | _ => none
  | .record place =>
      match traffic.writes[place]? with
      | some ⟨entity, some reading⟩ => some (traffic.recorded place entity reading)
      | _ => none

theorem step_of_advance? {move : Move} (moved : traffic.advance? move = some after) : Step traffic after := by
  cases move with
  | call place =>
      simp only [advance?, Option.bind_eq_bind, Option.bind_eq_some_iff] at moved
      obtain ⟨pass, found, moved⟩ := moved
      split at moved
      · contradiction
      · rename_i call next asks
        obtain ⟨⟨answer, system⟩, answered, same⟩ := Option.bind_eq_some_iff.mp moved
        obtain rfl := Option.some.inj same
        exact .call found asks ⟨System.mayAnswer_of_answer? answered, .inr trivial⟩
  | store entity host =>
      obtain rfl := Option.some.inj moved
      exact .store entity host
  | read place =>
      simp only [advance?] at moved
      split at moved
      · rename_i found
        obtain rfl := Option.some.inj moved
        exact .read found
      · contradiction
  | record place =>
      simp only [advance?] at moved
      split at moved
      · rename_i found
        obtain rfl := Option.some.inj moved
        exact .record found
      · contradiction

def advance (schedule : List Move) (traffic : Traffic) : Traffic :=
  schedule.foldl (fun traffic move => (traffic.advance? move).getD traffic) traffic

theorem steps_advance {first : Traffic} (schedule : List Move) (steps : Steps first traffic) :
    Steps first (traffic.advance schedule) := by
  induction schedule generalizing traffic with
  | nil => exact steps
  | cons move schedule ih =>
      simp only [advance, List.foldl_cons]
      cases moved : traffic.advance? move with
      | none => exact ih steps
      | some after => exact ih (steps.tail (step_of_advance? moved))

end Traffic

namespace Sample

def ticking (reading : Nat) : Instant :=
  ⟨noon.date, 43200 + min reading 3600, 0, by unfold Instant.Fits; omega⟩

def renewed : Host
  | .loadOne _ =>
      let values : ValueSet := .ofList [Value.bool false]
      .ok (.ofList [(type, values)])
  | call => host call

theorem forward_ticking (earlier later : Nat) (order : earlier ≤ later) :
    ¬(ticking earlier).after (ticking later) := by
  have seconds : compare (43200 + min earlier 3600) (43200 + min later 3600) ≠ .gt := by
    rw [Ne, Nat.compare_eq_gt]
    omega
  have compared : compare (ticking earlier) (ticking later) =
      compare (43200 + min earlier 3600) (43200 + min later 3600) := by
    change (compare noon.date noon.date).then ((compare _ _).then (compare 0 0)) = _
    simp [ticking]
  simpa [Instant.after, compared] using seconds

def write (stored : Host) : List Traffic.Move := [.store left stored, .read 0, .record 0]

def clocked : System := { start with clock := ticking }

def overtaken : Traffic :=
  (Traffic.start clocked [(linker, left)]).advance
    (write host ++ List.replicate 3 (.call 0) ++ write renewed ++ List.replicate 60 (.call 0))

def caught : Traffic := overtaken.advance (write renewed)

theorem steps_overtaken : Traffic.Steps (.start clocked [(linker, left)]) overtaken :=
  Traffic.steps_advance _ .refl

/-- A write that begins when the pass is done is in the queue. -/
theorem needing_caught : Traffic.Steps (.start clocked [(linker, left)]) caught ∧
    caught.linkedAt? left = some (0, 5) ∧ caught.writtenAt? left = some 9 ∧
    ∃ rows, ((ClusterGraph.needingLinking (.ofList [set]) 10).run.run System.answer? caught.system).1 =
      .done (.ok rows) ∧ left ∈ rows := by
  have steps : Traffic.Steps (.start clocked [(linker, left)]) caught :=
    Traffic.steps_advance _ steps_overtaken
  have linked : caught.linkedAt? left = some (0, 5) := by decide +kernel
  have written : caught.writtenAt? left = some 9 := by decide +kernel
  have alive : caught.system.index[left]?.any IndexRecord.isLive := by decide +kernel
  obtain ⟨record, known, live⟩ := (Option.any_eq_true _ _).mp alive
  have listed : left.set ∈ (.ofList [set] : IdSet) := by simp [left]
  obtain ⟨rows, told, queued, _⟩ := Traffic.needing_iff_written_later forward_ticking steps known live written
    listed (by decide +kernel : caught.system.index.size ≤ 10)
  exact ⟨steps, linked, written, rows, told, (queued 0 5 linked).mpr ⟨by decide, by decide⟩⟩

/-- The second write is stored and recorded after the pass has loaded the entity, but is not in the queue when
all is done: the pass stamps the entity later. -/
theorem not_needing_overtaken : Traffic.Steps (.start clocked [(linker, left)]) overtaken ∧
    (∀ earlier later, earlier ≤ later → ¬(clocked.clock earlier).after (clocked.clock later)) ∧
    overtaken.writes = [] ∧ (overtaken.passes.all fun pass => pass.rest.result?.any Except.isOk) ∧
    overtaken.history = [.linked 0 left 5, .loaded 0 right, .written left 1, .stored left, .loaded 0 left,
      .written left 0, .stored left] ∧
    (∃ record, overtaken.system.index[left]? = some record ∧ record.isLive) ∧
    ((ClusterGraph.needingLinking (.ofList [set]) 10).run.run System.answer? overtaken.system).1 =
      .done (.ok []) := by
  have alive : overtaken.system.index[left]?.any IndexRecord.isLive := by decide +kernel
  have none : overtaken.system.index.select (.ofList [set]) 10 IndexRecord.needsLinking = [] := by
    decide +kernel
  refine ⟨steps_overtaken, forward_ticking, ?_, ?_, ?_, (Option.any_eq_true _ _).mp alive, ?_⟩
  · decide +kernel
  · decide +kernel
  · decide +kernel
  · exact congrArg (fun rows => Program.done (Except.ok rows)) none

end Sample

end RecordLinkage
