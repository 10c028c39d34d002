import RecordLinkage.Proofs.Lock.Holding
import RecordLinkage.Proofs.Program.Reaches

/-! What a pass that fails leaves as it was. Up to the removal of its rows a pass only looks and takes locks,
and all its locks are given back however it ends, so that an early failure leaves nothing behind. Once the
rows are removed it fails only with the error of a call that it makes from then on. -/

namespace RecordLinkage

namespace Call

def Spares : Call → Prop
  | .write _ | .index (.setCluster _ _ _) => False
  | _ => True

def Settles : Call → Prop
  | .read (.clustersContaining _) | .read (.loadClusters _) => True
  | .write (.upsertEdges _ _) | .write (.appendEntries _) => True
  | .index (.setCluster _ _ _) | .index (.record _) | .now | .tick => True
  | _ => False

theorem Looks.spares {call : Call} (looks : call.Looks) : call.Spares := by
  cases call with
  | index request =>
      cases request with
      | setCluster => exact looks.elim
      | _ => trivial
  | write => exact looks.elim
  | _ => trivial

theorem Joins.settles {cluster : Id} {entities : List EntityKey} {call : Call}
    (joins : call.Joins cluster entities) : call.Settles := by
  cases call with
  | index request =>
      cases request with
      | setCluster | record => trivial
      | _ => exact joins.elim
  | write request =>
      cases request with
      | appendEntries => trivial
      | _ => exact joins.elim
  | now | tick => trivial
  | _ => exact joins.elim

end Call

namespace System

variable {system after : System} {call : Call} {answer : call.Answer}

theorem MayAnswer.spared (possible : system.MayAnswer call answer after) (spares : call.Spares) :
    after.store = system.store ∧ after.index = system.index := by
  cases call with
  | index request =>
      refine ⟨possible.fixes.store (by simp), ?_⟩
      cases answer with
      | error error => exact congrArg System.index possible
      | ok answer =>
          cases request with
          | setCluster => exact spares.elim
          | _ => exact congrArg System.index possible.2
  | write => exact spares.elim
  | _ => exact ⟨possible.fixes.store (by simp), possible.fixes.index (by simp)⟩

end System

namespace Linking

structure Course where
  wiped : Bool
  refused : Option (Call × LinkError)

namespace Course

def start : Course := ⟨false, none⟩

def after (course : Course) : (call : Call) → call.Answer → Course
  | .write (.deleteTouching _ _), .ok _ => ⟨true, none⟩
  | call, answer =>
      match call.error? answer with
      | some error => { course with refused := some (call, error) }
      | none => course

def Follows : Answering Course := fun course call answer after => after = course.after call answer

def Permits (course : Course) (call : Call) : Prop :=
  course.wiped = true ∨ call.Spares ∨ ∃ entity kept, call = .write (.deleteTouching entity kept)

def Blames (course : Course) (error : LinkError) : Prop :=
  (∃ call, course.refused = some (call, error) ∧ call.Settles) ∨
    ∃ cluster, error = .validation (.clusterNotLocked cluster)

variable {course : Course} {call : Call} {answer : call.Answer}

theorem after_of_error {error : LinkError} (failed : call.error? answer = some error) :
    course.after call answer = { course with refused := some (call, error) } := by
  unfold after
  split
  · cases failed
  · rw [failed]

theorem wiped_after : (course.after call answer).wiped =
    (course.wiped || match call, answer with
      | .write (.deleteTouching _ _), .ok _ => true
      | _, _ => false) := by
  unfold after
  split
  · simp
  · cases call.error? answer <;> simp

theorem wiped_after_of_spares (spares : call.Spares) : (course.after call answer).wiped = course.wiped := by
  rw [wiped_after]
  split
  · exact spares.elim
  · simp

end Course

end Linking

open Linking

namespace Action

variable {α β : Type} {course : Course}

abbrev Heeds (post : α → Course → Prop) (action : Action α) (course : Course) : Prop :=
  action.Ensures Course.Follows Course.Permits (fun error after => after.wiped = true → after.Blames error)
    post course

theorem heeds_bind {found : α → Course → Prop} {post : β → Course → Prop} {action : Action α}
    {rest : α → Action β} (first : action.Heeds found course)
    (then' : ∀ value after, found value after → (rest value).Heeds post after) :
    (action >>= rest).Heeds post course :=
  (ensures_bind _ _ _).mpr (first.mono then')

/-- What only looks and locks can fail in any way as long as the rows are there. -/
theorem heeds_of_asks {known : α → Prop} {action : Action α} (asks : action.Asks True Call.Spares known)
    (unwiped : course.wiped = false) :
    action.Heeds (fun value after => after.wiped = false ∧ known value) course := by
  have stays : action.Ensures Course.Follows Course.Permits (fun _ after => after.wiped = false)
      (fun value after => after.wiped = false ∧ known value) course := by
    refine asks.ensures (fun course : Course => course.wiped = false) unwiped
      (fun _ _ _ spares => .inr (.inl spares)) ?_
    rintro course call answer after unwiped spares rfl
    rwa [Course.wiped_after_of_spares spares]
  exact stays.refuse fun error after unwiped wiped => nomatch unwiped.symm.trans wiped

theorem heeds_of_relays {action : Action α} (relays : action.Relays Call.Settles) (wiped : course.wiped = true) :
    action.Heeds (fun _ after => after.wiped = true) course := by
  refine relays.ensures wiped (fun _ _ wiped _ => .inl wiped) ?_ ?_
  · rintro course call answer after wiped _ rfl
    simp [Course.wiped_after, wiped]
  · rintro course call answer after error wiped settles rfl failed _
    exact .inl ⟨call, by rw [Course.after_of_error failed], settles⟩

theorem heeds_deleteNeighborhoodIn (transaction : Transaction) (entity : EntityKey) (kept : PairSet)
    (unwiped : course.wiped = false) :
    (ClusterGraph.deleteNeighborhoodIn transaction entity kept).Heeds (fun _ after => after.wiped = true)
      course := by
  have early : ∀ {error : LinkError} {course : Course}, course.wiped = false → course.wiped = true →
      course.Blames error := fun unwiped wiped => nomatch unwiped.symm.trans wiped
  unfold ClusterGraph.deleteNeighborhoodIn
  split
  · exact (ensures_throw _ _).mpr (early unwiped)
  · refine heeds_bind (heeds_of_asks (asks_clustersContaining (fun _ => trivial) _) unwiped) ?_
    rintro touched middle ⟨unwiped, _⟩
    split
    · exact (ensures_throw _ _).mpr (early unwiped)
    · refine (ensures_bind _ _ _).mpr ⟨.inr (.inr ⟨entity, kept, rfl⟩), ?_⟩
      rintro answer _ rfl
      cases answer with
      | ok written => exact (ensures_pure _ _).mpr rfl
      | error error => exact early unwiped

section Relays

variable {allowed : Call → Prop}

theorem relays_read {request : Read} (fits : allowed (.read request)) : (Action.read request).Relays allowed := by
  refine fun _ => ⟨fits, ?_⟩
  rintro answer _ rfl
  cases answer with
  | ok answer => trivial
  | error error => rfl

theorem relays_clustersContaining (fits : ∀ entities, allowed (.read (.clustersContaining entities)))
    (entities : EntitySet) : (ClusterGraph.clustersContaining entities).Relays allowed := by
  unfold ClusterGraph.clustersContaining
  split
  · exact relays_pure _
  · exact relays_read (fits _)

theorem relays_clusters (fits : ∀ ids, allowed (.read (.loadClusters ids))) (ids : IdSet) :
    (ClusterGraph.clusters ids).Relays allowed := by
  unfold ClusterGraph.clusters
  split
  · exact relays_pure _
  · exact relays_read (fits _)

theorem relays_choose {transaction : Transaction} (own : transaction.reserved.isSome) (focal : EntityKey)
    (scored : Scored) (snapshot : Snapshot) :
    (choose transaction focal scored snapshot).Relays allowed := by
  obtain ⟨reserved, own⟩ := Option.isSome_iff_exists.mp own
  unfold choose
  rw [own]
  split <;> exact relays_pure _

theorem relays_flush (now : allowed .now) (writes : ∀ edges writtenAt, allowed (.write (.upsertEdges edges writtenAt)))
    (transaction : Transaction) : transaction.flush.Relays allowed := by
  unfold Transaction.flush
  split
  · exact relays_pure _
  · exact relays_bind (relays_lift now) fun _ => relays_bind (relays_write (writes _ _)) fun _ => relays_pure _

end Relays

/-- Scores that are in range are refused only for a cluster that is not held. -/
theorem stage_error {transaction : Transaction} {cluster : Id} {scores : ScoreMap} {error : ValidationError}
    (inUnit : ∀ scored ∈ scores.edges cluster, scored.score.inUnit)
    (refused : transaction.stage cluster scores = .error error) : error = .clusterNotLocked cluster := by
  by_cases held : cluster ∈ transaction.clusters
  · rw [stage_eq_ok transaction held inUnit] at refused
    cases refused
  · have apart : transaction.holds cluster = false := by
      rwa [Transaction.holds, ← Bool.not_eq_true, Std.ExtTreeSet.contains_iff_mem]
    simp only [Transaction.stage, apart, Bool.not_false, if_true, Except.error.injEq] at refused
    exact refused.symm

theorem heeds_place {transaction : Transaction} {prepared : Prepared} (sound : prepared.Sound)
    (own : transaction.reserved.isSome) (unwiped : course.wiped = false) :
    (place transaction prepared.focal prepared.scored prepared.positive).Heeds (fun _ _ => True) course := by
  unfold place
  refine heeds_bind (heeds_of_asks (asks_pointer trivial) unwiped) ?_
  rintro previous middle ⟨unwiped, _⟩
  refine heeds_bind (heeds_deleteNeighborhoodIn _ _ _ unwiped) fun _ middle wiped => ?_
  have settles : ∀ {γ : Type} {action : Action γ} {course : Course}, action.Relays Call.Settles →
      course.wiped = true → action.Heeds (fun _ after => after.wiped = true) course := heeds_of_relays
  refine heeds_bind (settles (relays_clustersContaining (fun _ => trivial) _) wiped) fun ids middle wiped => ?_
  refine heeds_bind (settles (relays_clusters (fun _ => trivial) ids) wiped) fun snapshot middle wiped => ?_
  refine heeds_bind (settles (relays_choose own _ _ _) wiped) fun chosen middle wiped => ?_
  dsimp only
  split
  · rename_i refused
    have inUnit : ∀ scored ∈ prepared.edges snapshot chosen.1, scored.score.inUnit :=
      fun scored listed => (Prepared.edges_accepted sound snapshot listed).2.2.2
    exact (ensures_throw _ _).mpr fun _ => .inr ⟨_, congrArg _ (stage_error inUnit refused)⟩
  · refine heeds_bind (settles (relays_flush trivial (fun _ _ => trivial) _) wiped) fun _ middle wiped => ?_
    have joins : ∀ {γ : Type} {action : Action γ} {cluster : Id} {entities : List EntityKey},
        action.Relays (Call.Joins cluster entities) → action.Relays Call.Settles :=
      fun relays => relays.allow fun _ => Call.Joins.settles
    refine heeds_bind (settles (joins (relays_moveAll _ _ _ _)) wiped) fun _ middle wiped => ?_
    exact heeds_bind (settles (joins (relays_join _ [] _)) wiped) fun _ _ _ => trivial

theorem heeds_settle {transaction : Transaction} {prepared : Prepared} (sound : prepared.Sound)
    (own : transaction.reserved.isSome) (unwiped : course.wiped = false) :
    (prepared.settle transaction).Heeds (fun _ _ => True) course := by
  rw [prepared.settle_eq]
  refine (ensures_thenAlways _ _ _).mpr (Program.Ensures.mono (heeds_place sound own unwiped) ?_)
  intro result after holds
  unfold Transaction.release releaseLocks
  split
  · exact holds
  · refine ⟨.inr (.inl trivial), ?_⟩
    rintro _ _ rfl
    exact holds

theorem heeds_link (linker : Linker) (focal : EntityKey) :
    (linker.link focal).Heeds (fun _ _ => True) Course.start := by
  rw [linker.link_eq]
  have looks : (linker.prepare focal).Looks True Found := linker.looks_prepare focal
  refine heeds_bind (heeds_of_asks (looks.allow fun _ => Call.Looks.spares) rfl) ?_
  rintro (outcome | prepared) middle ⟨unwiped, found⟩
  · trivial
  · refine heeds_bind (heeds_of_asks (asks_lockStable _ (fun _ => trivial) (fun _ => trivial)
      (asks_clustersContaining (fun _ => trivial) _)) unwiped) ?_
    rintro transaction middle ⟨unwiped, _, own⟩
    exact heeds_settle found (own rfl) unwiped

end Action

namespace System

variable {before after : System}

def Follows : Answering (System × Course) := fun state call answer after =>
  state.1.MayAnswer call answer after.1 ∧ Course.Follows state.2 call answer after.2

/-- As long as the rows are not removed, what is permitted changes nothing. -/
theorem unchanged_of_permits {system : System} {course : Course} {call : Call} {answer : call.Answer}
    (permits : course.Permits call) (answered : system.MayAnswer call answer after)
    (unwiped : (course.after call answer).wiped = false)
    (same : course.wiped = false →
      system.store.tables = before.store.tables ∧ system.index = before.index) :
    after.store.tables = before.store.tables ∧ after.index = before.index := by
  rw [Course.wiped_after, Bool.or_eq_false_iff] at unwiped
  obtain ⟨unwiped, kept⟩ := unwiped
  obtain ⟨tables, index⟩ := same unwiped
  rcases permits with wiped | spares | ⟨entity, kept, rfl⟩
  · exact nomatch unwiped.symm.trans wiped
  · obtain ⟨store, records⟩ := answered.spared spares
    exact ⟨store ▸ tables, records ▸ index⟩
  · cases answer with
    | ok written => cases kept
    | error error => exact ⟨answered.refused.1.trans tables, (answered.fixes.index (by simp)).trans index⟩

/-- A pass that fails gives back its locks. If it fails before its rows are removed then it changed no row of a
table and no record of the index: so with an error of the loader, the catalog, the search, the scorer or
the feedback, with a score out of range or an unknown set, while it looks for clusters or is contended
for locks, when it reads the pointer, and when the removal itself is refused. If it fails after that,
then with the error of one of the calls that follow, or as a cluster is not locked. -/
theorem unchanged_of_failed {linker : Linker} {focal : EntityKey} {error : LinkError} {course : Course}
    (run : Program.Runs Follows (linker.link focal).run (before, .start) (.error error) (after, course)) :
    after.locks = before.locks ∧
    (course.wiped = false → after.store.tables = before.store.tables ∧ after.index = before.index) ∧
    (course.wiped = true → course.Blames error) := by
  have related := run.simulated (Action.heeds_link linker focal)
    (fun state image => state.2 = image ∧ (image.wiped = false →
      state.1.store.tables = before.store.tables ∧ state.1.index = before.index))
    ⟨rfl, fun _ => ⟨rfl, rfl⟩⟩ ?_
  · obtain ⟨_, ⟨rfl, unchanged⟩, blames⟩ := related
    exact ⟨locks_of_link Prod.fst (fun _ _ _ _ => And.left) run, unchanged, blames⟩
  · rintro state _ call answer later ⟨rfl, same⟩ permits ⟨answered, follows⟩
    exact ⟨_, follows, rfl, fun unwiped => unchanged_of_permits permits answered (follows ▸ unwiped) same⟩

end System

namespace Sample

def barring (state : System × Course) : (call : Call) → Option (call.Answer × (System × Course))
  | .write (.deleteTouching entity kept) =>
      let answer : Except LinkError Written := .error (.storage (.connection "down"))
      some (answer, state.1, state.2.after (.write (.deleteTouching entity kept)) answer)
  | call => (state.1.answer? call).map fun (answer, after) => (answer, after, state.2.after call answer)

def barred : System × Course := ((linker.link left).run.run barring (linked, .start)).2

theorem follows_of_barring {state after : System × Course} {call : Call} {answer : call.Answer}
    (answered : barring state call = some (answer, after)) : System.Follows state call answer after := by
  unfold barring at answered
  split at answered
  · cases answered
    exact ⟨.inr ⟨_, rfl, rfl⟩, rfl⟩
  · obtain ⟨⟨answer, system⟩, given, same⟩ := Option.map_eq_some_iff.mp answered
    cases same
    exact ⟨System.mayAnswer_of_answer? given, rfl⟩

/-- A pass over an entity that is linked, whose rows cannot be removed. -/
theorem unchanged_of_failed_barred :
    ∃ error, Program.Runs System.Follows (linker.link left).run (linked, .start) (.error error) barred ∧
      barred.2.wiped = false ∧ barred.1.locks = linked.locks ∧
      barred.1.store.tables = linked.store.tables ∧ barred.1.index = linked.index := by
  have ended : ((linker.link left).run.run barring (linked, .start)).1.result?.any fun result => !result.isOk := by
    decide +kernel
  obtain ⟨result, same, failed⟩ := (Option.any_eq_true _ _).mp ended
  cases result with
  | ok outcome => contradiction
  | error error =>
      have run := (Program.runs_of_result same).mono fun _ _ _ _ => follows_of_barring
      have unwiped : barred.2.wiped = false := by decide +kernel
      obtain ⟨locks, unchanged, _⟩ := System.unchanged_of_failed run
      exact ⟨error, run, unwiped, locks, unchanged unwiped⟩

end Sample

end RecordLinkage
