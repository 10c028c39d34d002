import RecordLinkage.Proofs.Feedback.Agreement
import RecordLinkage.Proofs.Program.Reaches

/-! One after the other, feedback operations leave in the cache only what is in the table. -/

namespace RecordLinkage

namespace Call

def KeepsFeedback : Call → Prop
  | .write (.upsertFeedback _) | .write (.deleteFeedbackInSet _ _) | .write (.deleteFeedbackOn _) => False
  | _ => True

end Call

namespace Tables

theorem feedback_write (tables : Tables) {request : Write} (keeps : (Call.write request).KeepsFeedback) :
    (tables.write request).2.feedback = tables.feedback := by
  cases request with
  | upsertFeedback | deleteFeedbackInSet | deleteFeedbackOn => exact keeps.elim
  | _ => rfl

theorem sound_feedback_write {tables : Tables} (sound : tables.feedback.Sound) (request : Write) :
    (tables.write request).2.feedback.Sound := by
  cases request with
  | upsertFeedback row => exact sound.upsert row
  | deleteFeedbackInSet | deleteFeedbackOn => exact sound.remove _
  | _ => exact sound

end Tables

namespace System

variable {system after : System} {call : Call} {answer : call.Answer}

/-- The feedback table after a call is that of before, or a write went through. -/
theorem MayAnswer.feedback_cases (possible : system.MayAnswer call answer after) :
    after.store.tables.feedback = system.store.tables.feedback ∨ ∃ request, call = .write request ∧
      after.store.tables.feedback = (system.store.tables.write request).2.feedback := by
  rcases possible.tables with same | ⟨request, asks, same⟩
  · exact .inl (congrArg Tables.feedback same)
  · exact .inr ⟨request, asks, congrArg Tables.feedback same⟩

theorem MayAnswer.feedback (possible : system.MayAnswer call answer after)
    (keeps : call.KeepsFeedback) : after.store.tables.feedback = system.store.tables.feedback := by
  rcases possible.feedback_cases with same | ⟨request, rfl, same⟩
  · exact same
  · exact same.trans (Tables.feedback_write _ keeps)

theorem MayAnswer.sound_feedback (possible : system.MayAnswer call answer after)
    (sound : system.store.tables.feedback.Sound) : after.store.tables.feedback.Sound := by
  rcases possible.feedback_cases with same | ⟨request, _, same⟩
  · exact same ▸ sound
  · exact same ▸ Tables.sound_feedback_write sound request

structure Coherent (system : System) : Prop where
  sound : system.store.tables.feedback.Sound
  cache : system.feedbackCache.Faithful fun pair value => system.stored pair = value

theorem Coherent.agrees (coherent : system.Coherent) (pair : EntityPair) :
    system.Agrees [.settled] pair where
  lasting brief := coherent.cache.lasting brief pair
  seen := by
    intro duty listed
    rw [List.mem_singleton.mp listed]
    exact Nat.zero_le _
  owed := by
    intro duty listed value owed
    rw [List.mem_singleton.mp listed] at owed
    cases owed
  cached value known := .inl (coherent.cache.right pair value known)
  loaded value listed := by cases List.mem_singleton.mp listed

theorem coherent_of_agrees (sound : system.store.tables.feedback.Sound)
    (agrees : ∀ pair, system.Agrees [.settled] pair) : system.Coherent where
  sound := sound
  cache := by
    refine ⟨fun brief pair => (agrees pair).lasting brief, ?_⟩
    intro pair value known
    refine ((agrees pair).cached value known).resolve_right ?_
    rintro ⟨duty, listed, owes⟩
    rw [List.mem_singleton.mp listed] at owes
    exact Duty.not_owes_settled owes

/-- A call that puts only stored verdicts in the cache keeps it coherent. -/
theorem Coherent.answered (coherent : system.Coherent) (keeps : call.KeepsFeedback)
    (puts : ∀ request, call = .feedbackCache request →
      request.Puts fun pair value => system.stored pair = value)
    (possible : system.MayAnswer call answer after) : after.Coherent where
  sound := possible.sound_feedback coherent.sound
  cache := by
    have same : after.stored = system.stored := by
      funext pair
      simp only [stored, possible.feedback keeps]
    rw [same]
    cases call with
    | feedbackCache request =>
        obtain ⟨_, answers, rfl⟩ := possible
        exact coherent.cache.answers (puts request rfl) answers
    | _ =>
        rw [possible.fixes.feedbackCache (by simp)]
        exact coherent.cache

/-- A whole feedback operation keeps the cache coherent, whether it succeeds or fails. -/
theorem Coherent.operation (coherent : system.Coherent) {operation : FeedbackOperation}
    (run : Program.Runs (System.Answers True) operation.program system () after) : after.Coherent := by
  obtain ⟨duty, ⟨sound, agrees⟩, rfl⟩ := run.simulated operation.ensures_program
    (fun system duty => system.store.tables.feedback.Sound ∧ ∀ pair, system.Agrees [duty] pair)
    ⟨coherent.sound, coherent.agrees⟩ (by
      rintro system duty call answer after ⟨sound, agrees⟩ permitted ⟨possible, _⟩
      refine ⟨_, rfl, possible.sound_feedback sound, fun pair => ?_⟩
      refine @Agrees.call _ _ [duty] 0 duty pair _ _ (agrees pair) rfl permitted possible ?_
      -- There is no other caller.
      intro _ other known apart among
      cases other with
      | zero => exact absurd rfl apart
      | succ other => simp at among)
  exact coherent_of_agrees sound agrees

end System

end RecordLinkage
