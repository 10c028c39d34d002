import RecordLinkage.Proofs.Feedback.Coherence
import RecordLinkage.Proofs.Feedback.Verdicts
import RecordLinkage.Proofs.Linking.Preparing
import RecordLinkage.Proofs.Program.Relays

/-! A feedback service that alone writes its table. Asked one request after the other, it answers what one
map from unordered pairs to verdicts does, from the cache or from the table, whatever the cache has lost
meanwhile. A request that fails leaves the map as it was. -/

namespace RecordLinkage

inductive FeedbackRequest where
  | of (operation : FeedbackOperation)
  | all

namespace FeedbackRequest

abbrev Answer : FeedbackRequest → Type
  | of (.add _ _ _) => Feedback
  | of (.get _ _) => Option Feedback
  | of (.hasNegative _ _) => Bool
  | of (.onEntity _ _) => List Feedback
  | of (.positivePairs _) => PairSet
  | of (.deleteInSet _ _) => Nat
  | of (.deleteOn _) => Nat
  | all => List Feedback

def action : (request : FeedbackRequest) → Action request.Answer
  | of (.add a b linked) => FeedbackService.add a b linked
  | of (.get a b) => FeedbackService.get a b
  | of (.hasNegative a b) => FeedbackService.hasNegative a b
  | of (.onEntity verdict entity) => FeedbackService.onEntity verdict entity
  | of (.positivePairs entity) => FeedbackService.positivePairs entity
  | of (.deleteInSet set keys) => FeedbackService.deleteInSet set keys
  | of (.deleteOn entity) => FeedbackService.deleteOn entity
  | all => FeedbackService.all

theorem program_eq (operation : FeedbackOperation) :
    operation.program = (of operation).action.run >>= fun _ => pure () := by
  cases operation <;> rfl

end FeedbackRequest

namespace Verdicts

def serve (verdicts : Verdicts) : (request : FeedbackRequest) → request.Answer × Verdicts
  | .of (.add a b linked) => (⟨.of a b, linked⟩, verdicts.insert (.of a b) linked)
  | .of (.get a b) => (verdicts[EntityPair.of a b]?.map (⟨.of a b, ·⟩), verdicts)
  | .of (.hasNegative a b) => (verdicts[EntityPair.of a b]? = some false, verdicts)
  | .of (.onEntity verdict entity) => ((verdicts.about verdict entity).rows, verdicts)
  | .of (.positivePairs entity) => (.ofList (verdicts.about .positive entity).keys, verdicts)
  | .of (.deleteInSet set keys) => verdicts.delete (reaches set keys)
  | .of (.deleteOn entity) => verdicts.delete fun pair => pair.involves entity
  | .all => (verdicts.rows, verdicts)

end Verdicts

structure FeedbackEvent where
  request : FeedbackRequest
  result : Except LinkError request.Answer

inductive Verdicts.Tells (mayFail : Prop) : Verdicts → List FeedbackEvent → Verdicts → Prop
  | none (verdicts : Verdicts) : Tells mayFail verdicts [] verdicts
  | answered {verdicts final : Verdicts} {events : List FeedbackEvent} (request : FeedbackRequest) :
      Tells mayFail (verdicts.serve request).2 events final →
      Tells mayFail verdicts (⟨request, .ok (verdicts.serve request).1⟩ :: events) final
  | failed {verdicts final : Verdicts} {events : List FeedbackEvent} (request : FeedbackRequest)
      (error : LinkError) : mayFail → Tells mayFail verdicts events final →
      Tells mayFail verdicts (⟨request, .error error⟩ :: events) final

namespace System

inductive Serve (mayFail : Prop) : System → List FeedbackEvent → System → Prop
  | none (system : System) : Serve mayFail system [] system
  | request {system middle after : System} {events : List FeedbackEvent} {request : FeedbackRequest}
      {result : Except LinkError request.Answer} :
      Program.Runs (Answers mayFail) request.action.run system result middle →
      Serve mayFail middle events after → Serve mayFail system (⟨request, result⟩ :: events) after

def verdicts (system : System) : Verdicts := system.store.tables.feedback.rows

end System

namespace Call

def IsOfFeedback : Call → Prop
  | .read _ | .write _ | .feedbackCache _ => True
  | _ => False

def IsCached : Call → Prop
  | .feedbackCache _ => True
  | _ => False

end Call

namespace Action

theorem relays_refresh (rows : List Feedback) : (FeedbackService.refresh rows).Relays Call.IsCached := by
  induction rows with
  | nil => exact relays_pure ()
  | cons row rows ih => exact relays_bind (relays_lift trivial) fun _ => ih

theorem relays_forget (pairs : List EntityPair) : (FeedbackService.forget pairs).Relays Call.IsCached := by
  induction pairs with
  | nil => exact relays_pure ()
  | cons pair pairs ih => exact relays_bind (relays_lift trivial) fun _ => ih

end Action

namespace System

variable {mayFail : Prop} {system after : System}

theorem MayAnswer.verdicts {call : Call} {answer : call.Answer} (possible : system.MayAnswer call answer after)
    (keeps : call.KeepsFeedback) : after.verdicts = system.verdicts :=
  congrArg FeedbackTable.rows (possible.feedback keeps)

abbrev Serving {α : Type} (mayFail : Prop) (system : System) (action : Action α) (post : α → System → Prop) : Prop :=
  action.Ensures (Answers mayFail) (fun _ => Call.IsOfFeedback)
    (fun _ after => mayFail ∧ after.verdicts = system.verdicts) post system

theorem serving_read (request : Read) :
    system.Serving mayFail (Action.read request) fun answer after =>
      answer = system.store.read request ∧ after = system := by
  refine ⟨trivial, ?_⟩
  rintro answer after ⟨possible, succeeds⟩
  cases answer with
  | ok answer => exact possible
  | error error => exact ⟨succeeds.resolve_left id, congrArg verdicts possible⟩

theorem serving_write (request : Write) :
    system.Serving mayFail (Action.write request) fun written after =>
      written = (system.store.tables.write request).1 ∧
        after.verdicts = (system.store.tables.write request).2.feedback.rows := by
  refine ⟨trivial, ?_⟩
  rintro answer after ⟨possible, succeeds⟩
  cases answer with
  | ok written =>
      obtain ⟨disk, store, wrote, rfl⟩ := possible.written
      obtain ⟨same, feedback⟩ := Store.written_of_write wrote
      exact ⟨same, congrArg FeedbackTable.rows feedback⟩
  | error error =>
      exact ⟨succeeds.resolve_left id, congrArg (fun tables => tables.feedback.rows) possible.refused.1⟩

theorem ensures_cached {action : Action Unit} {refused : LinkError → System → Prop} {verdicts : Verdicts}
    (relays : action.Relays Call.IsCached) (start : system.verdicts = verdicts) :
    action.Ensures (Answers mayFail) (fun _ => Call.IsOfFeedback) refused
      (fun _ after => after.verdicts = verdicts) system := by
  refine relays.ensures start ?_ ?_ ?_
  · intro _ call _ cached
    cases call <;> first | exact trivial | exact cached.elim
  · rintro state call answer after holds cached ⟨possible, _⟩
    refine (possible.verdicts ?_).trans holds
    cases call <;> first | exact trivial | exact cached.elim
  · intro state call answer after error _ cached _ failed
    cases call <;> first | cases failed | exact cached.elim

/-- A look-up answers the verdict, from the cache or from the table. -/
theorem Coherent.serving_verdict (coherent : system.Coherent) (pair : EntityPair) :
    system.Serving mayFail (FeedbackService.verdict pair) fun value after =>
      value = system.verdicts[pair]? ∧ after.verdicts = system.verdicts := by
  refine ⟨trivial, ?_⟩
  rintro found middle ⟨possible, _⟩
  have kept := possible.verdicts trivial
  obtain ⟨_, answers, _⟩ := possible
  cases found with
  | some value => exact ⟨(coherent.cache.found answers).symm, kept⟩
  | none =>
      -- No other request comes in between, so that the table still has the verdict of the start.
      refine ⟨trivial, ?_⟩
      rintro seen counted ⟨possible, _⟩
      have kept := (possible.verdicts trivial).trans kept
      refine (Action.ensures_bind _ _ _).mpr ?_
      refine (Action.ensures_bind _ _ _).mpr ?_
      refine ((serving_read (.feedback pair)).refuse ?_).mono ?_
      · exact fun _ _ refused => ⟨refused.1, refused.2.trans kept⟩
      · rintro row _ ⟨rfl, rfl⟩
        refine ⟨trivial, ?_⟩
        rintro _ after ⟨possible, _⟩
        refine ⟨?_, (possible.verdicts trivial).trans kept⟩
        rw [← kept]
        exact FeedbackTable.map_linked_get?

theorem Coherent.serving_onEntity (coherent : system.Coherent) (verdict : Verdict) (entity : EntityKey) :
    system.Serving mayFail (FeedbackService.onEntity verdict entity) fun rows after =>
      rows = (system.verdicts.about verdict entity).rows ∧ after.verdicts = system.verdicts := by
  refine (Action.ensures_bind _ _ _).mpr ((serving_read _).mono ?_)
  rintro rows _ ⟨rfl, rfl⟩
  refine (Action.ensures_bind _ _ _).mpr ((ensures_cached (Action.relays_refresh _) rfl).mono ?_)
  intro _ after kept
  exact ⟨coherent.sound.findByEntity_eq entity verdict, kept⟩

theorem serving_delete {request : Write} {pairs : List EntityPair} {deleted : Nat × Verdicts}
    (plans : system.store.tables.plan request = .removeFeedback pairs)
    (removes : ((system.store.tables.feedback.remove pairs).1.length,
      (system.store.tables.feedback.remove pairs).2.rows) = deleted) :
    system.Serving mayFail (FeedbackService.delete request) fun count after =>
      (count, after.verdicts) = deleted := by
  refine (Action.ensures_bind _ _ _).mpr ((serving_write request).mono ?_)
  rintro written after ⟨rfl, rows⟩
  refine (Action.ensures_bind _ _ _).mpr ((ensures_cached (Action.relays_forget _) rfl).mono ?_)
  intro _ final kept
  refine Eq.trans ?_ removes
  rw [kept, rows, Tables.write, plans]
  rfl

theorem Serving.then {α β : Type} {action : Action α} {value : α} {made : β}
    (serving : system.Serving mayFail action fun found after => found = value ∧ after.verdicts = system.verdicts)
    (make : α → β) (makes : make value = made) :
    system.Serving mayFail (do return make (← action)) fun answer after =>
      answer = made ∧ after.verdicts = system.verdicts := by
  refine (Action.ensures_bind _ _ _).mpr (serving.mono ?_)
  rintro found after ⟨rfl, kept⟩
  exact ⟨makes, kept⟩

theorem Coherent.serving_get (coherent : system.Coherent) (a b : EntityKey) :
    system.Serving mayFail (FeedbackService.get a b) fun row after =>
      row = system.verdicts[EntityPair.of a b]?.map (⟨.of a b, ·⟩) ∧ after.verdicts = system.verdicts :=
  Serving.then (coherent.serving_verdict _) _ rfl

theorem Coherent.serving_action (coherent : system.Coherent) (request : FeedbackRequest) :
    system.Serving mayFail request.action fun answer after =>
      (answer, after.verdicts) = system.verdicts.serve request := by
  have keeping : ∀ {α : Type} {action : Action α} {value : α},
      (system.Serving mayFail action fun found after => found = value ∧ after.verdicts = system.verdicts) →
      system.Serving mayFail action fun found after => (found, after.verdicts) = (value, system.verdicts) :=
    fun serving => serving.mono fun _ _ found => Prod.ext found.1 found.2
  cases request with
  | all =>
      refine keeping ((serving_read .allFeedback).mono ?_)
      rintro rows _ ⟨rfl, rfl⟩
      exact ⟨rfl, rfl⟩
  | of operation =>
      cases operation with
      | add a b linked =>
          refine (Action.ensures_bind _ _ _).mpr ((serving_write _).mono ?_)
          rintro written after ⟨_, rows⟩
          refine (Action.ensures_bind _ _ _).mpr
            ((ensures_cached (Action.relays_lift trivial) rows).mono fun _ final kept => ?_)
          exact congrArg _ kept
      | get a b => exact keeping (coherent.serving_get a b)
      | hasNegative a b =>
          refine keeping (Serving.then (coherent.serving_get a b) _ ?_)
          cases system.verdicts[EntityPair.of a b]? <;> simp
      | onEntity verdict entity => exact keeping (coherent.serving_onEntity verdict entity)
      | positivePairs entity =>
          refine keeping (Serving.then (coherent.serving_onEntity .positive entity) _ ?_)
          simp [Verdicts.rows, Function.comp_def]
      | deleteInSet set keys => exact serving_delete rfl (coherent.sound.remove_planSet set keys)
      | deleteOn entity => exact serving_delete rfl (coherent.sound.remove_planEntity entity)

theorem Coherent.request (coherent : system.Coherent) {request : FeedbackRequest}
    {result : Except LinkError request.Answer}
    (run : Program.Runs (Answers mayFail) request.action.run system result after) : after.Coherent := by
  cases request with
  | of operation =>
      have ran : Program.Runs (Answers True) operation.program system () after := by
        rw [FeedbackRequest.program_eq]
        exact (run.mono fun _ _ _ _ answered => ⟨answered.1, .inr trivial⟩).bind (.done () _)
      exact coherent.operation ran
  | all =>
      cases run with
      | @ask _ _ answer _ _ _ _ answered rest =>
          cases answer with
          | ok rows =>
              cases rest
              exact answered.1.2 ▸ coherent
          | error error =>
              cases rest
              exact (show _ = system from answered.1) ▸ coherent

theorem Serve.tells {events : List FeedbackEvent} (served : system.Serve mayFail events after)
    (coherent : system.Coherent) :
    after.Coherent ∧ Verdicts.Tells mayFail system.verdicts events after.verdicts := by
  induction served with
  | none system => exact ⟨coherent, .none _⟩
  | @request system middle after events request result run _ ih =>
      obtain ⟨coherent', tells⟩ := ih (coherent.request run)
      refine ⟨coherent', ?_⟩
      have ended := run.ensured (coherent.serving_action request)
      cases result with
      | ok answer =>
          obtain ⟨rfl, same⟩ := Prod.ext_iff.mp (show (answer, middle.verdicts) = _ from ended)
          exact .answered request (same ▸ tells)
      | error error => exact .failed request error ended.1 (ended.2 ▸ tells)

/-- In memory, what only asks the table and the cache ends by itself. -/
theorem ends_alone {α : Type} {program : Program α} {post : α → System → Prop} {tables : Tables}
    (memory : system.store = .memory tables)
    (ensured : program.Ensures (Answers False) (fun _ => Call.IsOfFeedback) post system) :
    ∃ value after, program.run answer? system = (.done value, after) ∧
      Program.Runs (Answers False) program system value after ∧
      (∃ tables, after.store = .memory tables) ∧ post value after := by
  induction program generalizing system tables with
  | done value => exact ⟨value, system, rfl, .done _ _, ⟨tables, memory⟩, ensured⟩
  | ask call next ih =>
      obtain ⟨asked, later⟩ := ensured
      have answered : ∃ answer after, system.answer? call = some (answer, after) := by
        cases call <;> first | exact ⟨_, _, rfl⟩ | exact asked.elim
      obtain ⟨answer, middle, answered⟩ := answered
      obtain ⟨succeeds, tables, memory⟩ := succeeds_of_memory memory (by rintro _ rfl; exact asked) answered
      have given : Answers False system call answer middle := ⟨mayAnswer_of_answer? answered, .inl succeeds⟩
      obtain ⟨value, after, run, runs, kept, holds⟩ := ih answer memory (later _ _ given)
      exact ⟨value, after, by simp only [Program.run, answered, run], .ask given runs, kept, holds⟩

theorem Coherent.exists_served {tables : Tables} (coherent : system.Coherent)
    (memory : system.store = .memory tables) (requests : List FeedbackRequest) :
    ∃ events after, events.map FeedbackEvent.request = requests ∧ system.Serve False events after := by
  induction requests generalizing system tables with
  | nil => exact ⟨[], system, rfl, .none system⟩
  | cons request requests ih =>
      obtain ⟨result, middle, _, runs, ⟨tables, memory⟩, _⟩ :=
        ends_alone memory (coherent.serving_action request)
      obtain ⟨events, after, made, served⟩ := ih (coherent.request runs) memory
      exact ⟨⟨request, result⟩ :: events, after, congrArg _ made, .request runs served⟩

theorem sound_replay (changes : List Change) : (Tables.empty.replay changes).feedback.Sound := by
  have kept : ∀ tables : Tables, tables.feedback.Sound → (tables.replay changes).feedback.Sound := by
    induction changes with
    | nil => exact fun _ sound => sound
    | cons change changes ih =>
        intro tables sound
        refine ih (tables.apply change).2 ?_
        cases change with
        | upsertFeedback row => exact sound.upsert row
        | removeFeedback pairs => exact sound.remove pairs
        | _ => exact sound
  exact kept _ FeedbackTable.sound_empty

/-- Requests one after the other have the answers of one map from unordered pairs to verdicts, and in memory
every further request ends with its answer. -/
theorem served_as_map {events : List FeedbackEvent} (changes : List Change)
    (made : system.store.tables = Tables.empty.replay changes) (cold : system.feedbackCache.entries = ∅)
    (served : system.Serve mayFail events after) :
    ∃ verdicts, Verdicts.Tells mayFail system.verdicts events verdicts ∧
      (∀ tables, after.store = .memory tables → ∀ request : FeedbackRequest,
        (request.action.run.run answer? after).1.result? = some (.ok (verdicts.serve request).1)) ∧
      ∀ a b c d : EntityKey, EntityPair.of a b = .of c d ↔ a = c ∧ b = d ∨ a = d ∧ b = c := by
  have start : system.Coherent := ⟨made ▸ sound_replay changes, Cache.faithful_of_empty cold⟩
  obtain ⟨coherent, tells⟩ := served.tells start
  refine ⟨after.verdicts, tells, fun tables memory request => ?_, fun _ _ _ _ => EntityPair.of_eq_iff⟩
  obtain ⟨result, final, run, _, _, ended⟩ := ends_alone memory (coherent.serving_action request)
  rw [run]
  cases result with
  | ok answer => exact congrArg (fun made => some (Except.ok made.1)) ended
  | error error => exact ended.1.elim

end System

namespace Sample

def disputes : List FeedbackRequest :=
  [.of (.add left right true), .of (.get right left), .of (.add right left false),
    .of (.onEntity .negative left), .of (.deleteOn right), .of (.get left right)]

end Sample

namespace System

theorem served_as_map_disputed :
    ∃ events after, events.map FeedbackEvent.request = Sample.disputes ∧
      Sample.start.store.tables = Tables.empty.replay [] ∧ Sample.start.feedbackCache.entries = ∅ ∧
      Sample.start.Serve False events after ∧
      ∃ verdicts, Verdicts.Tells False Sample.start.verdicts events verdicts := by
  have coherent : Sample.start.Coherent := ⟨FeedbackTable.sound_empty, Cache.faithful_of_empty rfl⟩
  obtain ⟨events, after, made, served⟩ := coherent.exists_served rfl Sample.disputes
  obtain ⟨verdicts, tells, _⟩ := served_as_map [] rfl rfl served
  exact ⟨events, after, made, rfl, rfl, served, verdicts, tells⟩

end System

end RecordLinkage
