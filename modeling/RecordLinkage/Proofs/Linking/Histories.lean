import RecordLinkage.Proofs.Linking.Companions
import RecordLinkage.Proofs.Lock.Holding

/-! What a history of passes and feedback operations leaves when each of them has come to its end: the rows and
the log are in order, the cache of feedback says nothing false, and no lock is held. -/

namespace RecordLinkage

namespace Call

def Advises : Call → Prop
  | .write (.upsertFeedback _) | .write (.deleteFeedbackInSet _ _) | .write (.deleteFeedbackOn _) => True
  | .read (.feedback _) | .read (.feedbackOn _ _) | .feedbackCache _ => True
  | _ => False

end Call

theorem Duty.Permits.advises {duty : Duty} {call : Call} (permitted : duty.Permits call) : call.Advises := by
  unfold Duty.Permits at permitted
  split at permitted <;> trivial

theorem LinkGraph.Answers.advised {mayFail : Prop} {graph after : LinkGraph} {call : Call} {answer : call.Answer}
    (answered : Answers mayFail graph call answer after) (advises : call.Advises) : after = graph := by
  cases call with
  | write request =>
      cases request with
      | upsertFeedback | deleteFeedbackInSet | deleteFeedbackOn =>
          cases answer with
          | ok => exact answered
          | error => exact answered.1
      | _ => exact advises.elim
  | read request =>
      cases answer with
      | ok | error => exact answered.1
  | feedbackCache => exact answered
  | _ => exact advises.elim

namespace System

variable {start system after : System} {graph : LinkGraph} {linker : Linker} {focal : EntityKey}

inductive Evolves : System → System → Prop
  | feedback (operation : FeedbackOperation) {before after : System} :
      Program.Runs (Answers True) operation.program before () after → Evolves before after
  | link (linker : Linker) (focal : EntityKey) {before after : System} {outcome : LinkOutcome} :
      Program.Runs (Answers True) (linker.link focal).run before (.ok outcome) after → Evolves before after
  | recordWrite (entity : EntityKey) (writtenAt : Instant) (system : System) :
      Evolves system { system with index := system.index.recordWrite entity writtenAt }
  | tombstone (entity : EntityKey) (system : System) :
      Evolves system { system with index := (system.index.tombstone entity).2 }

structure Orderly (system : System) (graph : LinkGraph) : Prop where
  depicted : system.Depicts graph
  consistent : graph.Consistent
  punctual : graph.Punctual
  coherent : system.Coherent
  free : system.locks = .empty

theorem orderly_of_empty (empty : system.store.tables = .empty) (cold : system.feedbackCache.entries = ∅)
    (free : system.locks = .empty) : ∃ graph, system.Orderly graph := by
  refine ⟨_, depicts_self ?_, consistent_empty _ empty, ?_, ⟨?_, Cache.faithful_of_empty cold⟩, free⟩
  · rw [empty]
    exact MatchTable.sound_empty
  · rintro entity time ⟨cluster, entry, listed, _⟩
    simp only [empty] at listed
    cases listed
  · rw [empty]
    exact FeedbackTable.sound_empty

theorem Retains.allowed {testimony : Testimony} {now : System} {call : Call} {answer : call.Answer}
    (retains : system.Retains now) (same : testimony.verdict = system.testimony.verdict)
    (allowed : testimony.Allows call) (possible : now.MayAnswer call answer after) : system.Retains after := by
  refine retains.kept ?_ ?_ possible
  · cases call with
    | write => exact allowed.looks.elim
    | _ => trivial
  · rintro request rfl
    rw [Testimony.Allows, same] at allowed
    exact allowed

theorem Retains.permitted {prepared : Prepared} {flushed : Bool} {now : System} {call : Call}
    {answer : call.Answer} (retains : system.Retains now) (permitted : prepared.Permits flushed call)
    (possible : now.MayAnswer call answer after) : system.Retains after := by
  refine retains.kept ?_ ?_ possible
  · unfold Call.KeepsFeedback
    split <;> first | exact permitted.elim | trivial
  · rintro request rfl
    exact permitted.elim

/-- Whatever a pass is answered, the cache of feedback says nothing false afterwards. -/
theorem Coherent.linked {result : Except LinkError LinkOutcome} (coherent : system.Coherent)
    (run : Program.Runs (Answers True) (linker.link focal).run system result after) : system.Retains after := by
  have prepares {found : Except LinkError (LinkOutcome ⊕ Prepared)} {now : System}
      (run : Program.Runs (Answers True) (linker.prepare focal).run system found now) : system.Retains now := by
    have hears : (linker.prepare focal).Hears { system.testimony with loads := fun _ _ _ => True } _ :=
      linker.hears_prepare focal
    obtain ⟨_, retains, _⟩ := run.simulated hears (fun now _ => system.Retains now) ⟨rfl, coherent⟩
      fun _ _ _ _ _ retains allowed answered =>
        ⟨(), retains.heard answered.1, retains.allowed rfl allowed answered.1⟩
    exact retains
  rw [linker.link_eq] at run
  obtain ⟨_, _, stopped⟩ | ⟨found, now, prepared, resumed⟩ := Action.runs_bind run
  · exact prepares stopped
  cases found with
  | inl outcome =>
      cases resumed with
      | done => exact prepares prepared
  | inr pass =>
      have looks : (linker.prepare focal).Looks True Linking.Found := linker.looks_prepare focal
      have sound : pass.Sound := looks.holds prepared
      have permitted : pass.finish.Permitted pass false _ := Action.permitted_finish sound
      obtain ⟨_, retains, _⟩ := resumed.simulated permitted (fun now _ => system.Retains now)
        (prepares prepared) fun _ flushed call answer _ retains permits answered =>
          have ⟨later, flushes⟩ := Linking.exists_flushes flushed call answer
          ⟨later, flushes, retains.permitted permits answered.1⟩
      exact retains

theorem Orderly.advised {operation : FeedbackOperation} (orderly : system.Orderly graph)
    (run : Program.Runs (Answers True) operation.program system () after) : after.Orderly graph := by
  obtain ⟨_, ⟨depicted, free⟩, _⟩ := run.simulated operation.ensures_program
    (fun system _ => system.Depicts graph ∧ system.locks = .empty) ⟨orderly.depicted, orderly.free⟩ (by
      intro now duty call answer later ⟨depicted, free⟩ permitted answered
      have advises := permitted.advises
      obtain ⟨image, given, depicts⟩ := depicted.answered answered
      refine ⟨_, rfl, given.advised advises ▸ depicts, (answered.1.fixes.locks ?_).trans free⟩
      rintro request rfl
      exact advises)
  exact ⟨depicted, orderly.consistent, orderly.punctual, orderly.coherent.operation run, free⟩

/-- What a pass that ends without an error does to the graph. -/
theorem Depicts.linked {outcome : LinkOutcome} (depicted : system.Depicts graph)
    (run : Program.Runs (Answers True) (linker.link focal).run system (.ok outcome) after) :
    ∃ image, after.Depicts image ∧ (image = graph ∨ ∃ prepared : Prepared, prepared.Sound ∧
      ∃ held reserved, prepared.Placed held reserved graph image ∧ graph.Within held image) := by
  rw [linker.link_eq] at run
  obtain ⟨_, failed, _⟩ | ⟨found, now, prepared, resumed⟩ := Action.runs_bind run
  · cases failed
  obtain ⟨_, looked, rfl, sound⟩ :=
    depicted.runs prepared (LinkGraph.ensures_looks (linker.looks_prepare focal))
  cases found with
  | inl skipped =>
      cases resumed with
      | done => exact ⟨_, looked, .inl rfl⟩
  | inr pass =>
      obtain ⟨image, depicts, held, reserved, snapshot, _, places, within⟩ :=
        looked.runs resumed (LinkGraph.ensures_finish sound)
      exact ⟨image, depicts, .inr ⟨pass, sound, held, reserved, ⟨snapshot, places⟩, within⟩⟩

theorem Orderly.linked {outcome : LinkOutcome} (orderly : system.Orderly graph)
    (run : Program.Runs (Answers True) (linker.link focal).run system (.ok outcome) after) :
    ∃ image, after.Orderly image := by
  have coherent := (orderly.coherent.linked run).coherent
  have free : after.locks = .empty := (locks_of_link id (fun _ _ _ _ => And.left) run).trans orderly.free
  obtain ⟨image, depicts, rfl | ⟨prepared, sound, held, reserved, placed, within⟩⟩ := orderly.depicted.linked run
  · exact ⟨_, depicts, orderly.consistent, orderly.punctual, coherent, free⟩
  · exact ⟨image, depicts, orderly.consistent.placed sound placed, orderly.punctual.placed placed within,
      coherent, free⟩

theorem Orderly.reindexed {index : Index} (orderly : system.Orderly graph)
    (pointer : ∀ entity : EntityKey,
      index[entity]?.bind IndexRecord.cluster = system.index[entity]?.bind IndexRecord.cluster) :
    ∃ image, ({ system with index } : System).Orderly image := by
  obtain ⟨record, depicts, same⟩ := orderly.depicted.reindexed pointer
  exact ⟨_, depicts, orderly.consistent.shrunk (fun _ _ => id) same, orderly.punctual,
    ⟨orderly.coherent.sound, orderly.coherent.cache⟩, orderly.free⟩

theorem orderly_of_history (empty : start.store.tables = .empty) (cold : start.feedbackCache.entries = ∅)
    (free : start.locks = .empty) (history : Relation.ReflTransGen Evolves start system) :
    ∃ graph, system.Orderly graph := by
  induction history with
  | refl => exact orderly_of_empty empty cold free
  | tail _ evolves ih =>
      obtain ⟨graph, orderly⟩ := ih
      cases evolves with
      | feedback operation run => exact ⟨graph, orderly.advised run⟩
      | link linker focal run => exact orderly.linked run
      | recordWrite entity writtenAt => exact orderly.reindexed (Index.cluster_recordWrite _ entity writtenAt)
      | tombstone entity => exact orderly.reindexed (Index.cluster_tombstone _ entity)

end System

end RecordLinkage
