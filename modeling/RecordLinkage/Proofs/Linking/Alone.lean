import RecordLinkage.Proofs.Linking.Unhindered

/-! A pass that runs alone in memory comes to its end without an error. -/

namespace RecordLinkage

namespace LinkGraph

theorem Within.mono {held wider : LockTable} {graph after : LinkGraph}
    (within : graph.Within held after) (members : ∀ entity ∈ held.members, entity ∈ wider.members)
    (clusters : ∀ cluster ∈ held.clusters, cluster ∈ wider.clusters) :
    graph.Within wider after where
  scores := fun cluster outside => within.scores cluster fun inside => outside (clusters _ inside)
  touches := fun cluster entity touches =>
    (within.touches cluster entity touches).imp_right (members entity)
  record := fun entity outside => within.record entity fun inside => outside (members _ inside)
  present := fun cluster entity outside =>
    within.present cluster entity fun inside => outside (members _ inside)
  stamps := fun entity outside => within.stamps entity fun inside => outside (members _ inside)
  lastTick := within.lastTick

end LinkGraph

theorem Prepared.Placed.congr {prepared : Prepared} {held other : LockTable} {reserved : Id}
    {graph after : LinkGraph} (placed : prepared.Placed held reserved graph after)
    (members : held.members = other.members) : prepared.Placed other reserved graph after := by
  obtain ⟨snapshot, places⟩ := placed
  have timely : ∀ graph : LinkGraph, graph.Timely held ↔ graph.Timely other := by
    intro graph
    simp only [LinkGraph.Timely, members]
  refine ⟨snapshot, places.shows, places.scores, places.record, places.lastTick, ?_, ?_⟩
  · exact fun before => (timely after).mp (places.timely ((timely graph).mpr before))
  · exact fun before => places.present ((timely graph).mpr before)

namespace System

structure Holds (held : LockTable) (system : System) (graph : LinkGraph) : Prop where
  depicted : system.Depicts graph
  memory : ∃ tables, system.store = .memory tables
  locks : system.locks = held

variable {system after : System} {call : Call} {answer : call.Answer}

/-- In memory nothing but the host and a lock that is held keep a caller from an answer. -/
theorem isSome_of_grants (grants : system.Grants call) : (system.answer? call).isSome := by
  cases call with
  | lock request =>
      cases request with
      | take lock =>
          simp only [answer?, LockTable.answer?, LockTable.take?, Option.isSome_map]
          rw [if_neg grants]
          rfl
      | release members clusters => rfl
  | host request => exact grants.elim
  | _ => rfl

theorem answers_of_memory (memory : ∃ tables, system.store = .memory tables) (grants : system.Grants call)
    (answered : system.answer? call = some (answer, after)) :
    Answers False system call answer after ∧ ∃ tables, after.store = .memory tables := by
  obtain ⟨tables, memory⟩ := memory
  have host : ∀ request, call ≠ .host request := by
    rintro request rfl
    exact grants
  obtain ⟨succeeds, memory⟩ := succeeds_of_memory memory host answered
  exact ⟨⟨mayAnswer_of_answer? answered, .inl succeeds⟩, memory⟩

theorem ensures_of_memory {α : Type} {program : Program α} {post : α → System → Prop}
    (memory : ∃ tables, system.store = .memory tables)
    (ensured : program.Ensures (Answers False) Grants post system) :
    program.Ensures (Program.answeredBy answer?) (fun state call => (state.answer? call).isSome)
      (fun value after => post value after ∧ ∃ tables, after.store = .memory tables) system := by
  refine (ensured.simulate (fun state image => state = image ∧ ∃ tables, state.store = .memory tables)
    ⟨rfl, memory⟩ ?_ ?_).mono ?_
  · rintro state _ call ⟨rfl, _⟩ grants
    exact isSome_of_grants grants
  · rintro state _ call answer final ⟨rfl, memory⟩ grants answered
    obtain ⟨given, memory⟩ := answers_of_memory memory grants answered
    exact ⟨final, given, rfl, memory⟩
  · rintro value state ⟨_, ⟨rfl, memory⟩, ended⟩
    exact ⟨ended, memory⟩

end System

namespace Prepared

variable {prepared : Prepared} {graph : LinkGraph} {system : System} {reserved : Id}
  {held : LockTable}

def alone (prepared : Prepared) (reserved : Id) (system : System) :
    Program (Except LinkError LinkOutcome) × System :=
  prepared.finish.run.run System.answer? { system with ids := fun _ => reserved }

theorem ensures_alone (sound : prepared.Sound) (holds : system.Holds .empty graph)
    (members : held.members = prepared.members) (closed : graph.Closed held)
    (inside : reserved ∈ held.clusters) :
    prepared.finish.Ensures (Program.answeredBy System.answer?)
      (fun state call => (state.answer? call).isSome) (fun _ _ => False)
      (fun _ state => ∃ after, state.Holds .empty after ∧
        prepared.Placed held reserved graph after ∧ graph.Within held after)
      { system with ids := fun _ => reserved } := by
  have free : { system with ids := fun _ => reserved }.HeldBy .empty graph :=
    ⟨holds.depicted.unchanged rfl rfl rfl rfl rfl, holds.locks⟩
  have ended := @ensures_unhindered _ _ _ (· = reserved) sound free fun _ _ => rfl
  refine Program.Ensures.mono (System.ensures_of_memory holds.memory ended) ?_
  rintro (error | outcome) state ⟨ended, memory⟩
  · exact ended
  · obtain ⟨after, free, own, cluster, snapshot, settles⟩ := ended
    have fewer : ∀ cluster ∈ own.clusters, cluster ∈ held.clusters := by
      intro cluster listed
      rcases settles.clusters cluster listed with drawn | ⟨entity, member, touches⟩
      · exact drawn ▸ inside
      · exact closed entity (members ▸ member) cluster touches
    have alike : own.members = held.members := settles.members.trans members.symm
    refine ⟨after, ⟨free.depicted, memory, free.locks⟩, ?_, settles.within.mono (fun _ listed => alike ▸ listed) fewer⟩
    exact Prepared.Placed.congr ⟨snapshot, settles.drawn ▸ settles.places⟩ alike

/-- Alone a pass is done and has given back its locks. -/
theorem alone_eq (sound : prepared.Sound) (holds : system.Holds .empty graph)
    (members : held.members = prepared.members) (closed : graph.Closed held)
    (inside : reserved ∈ held.clusters) :
    ∃ outcome final after, prepared.alone reserved system = (.done (.ok outcome), final) ∧
      final.Holds .empty after ∧ prepared.Placed held reserved graph after ∧
      graph.Within held after := by
  obtain ⟨result, final, run, ended⟩ :=
    Program.Ensures.run_eq (ensures_alone sound holds members closed inside)
  cases result with
  | error error => exact ended.elim
  | ok outcome =>
      obtain ⟨after, holds, placed, within⟩ := ended
      exact ⟨outcome, final, after, run, holds, placed, within⟩

end Prepared

end RecordLinkage
