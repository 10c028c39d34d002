import RecordLinkage.Feedback.Service
import RecordLinkage.Proofs.Program.Ensures

/-! What a feedback operation still has to do with the cache. After its call to the table it owes the cache
what it wrote or read there, and it brings it one pair at a time; a look-up lands what it loaded. -/

namespace RecordLinkage

inductive Duty where
  | owing (updates : List (EntityPair × Option Bool))
  | counted (seen : Nat)
  | loaded (seen : Nat) (pair : EntityPair) (value : Option Bool)

namespace Duty

def settled : Duty := owing []

def updates : Duty → List (EntityPair × Option Bool)
  | owing updates => updates
  | _ => []

def Owes (duty : Duty) (pair : EntityPair) : Prop := ∃ value, (pair, value) ∈ duty.updates

def storing (rows : List Feedback) : Duty := owing (rows.map fun row => (row.pair, some row.linked))

def dropping (pairs : List EntityPair) : Duty := owing (pairs.map (·, none))

def next (duty : Duty) : (call : Call) → call.Answer → Duty
  | .write (.upsertFeedback row), .ok _ => storing [row]
  | .write (.deleteFeedbackInSet _ _), .ok written => dropping written.removed
  | .write (.deleteFeedbackOn _), .ok written => dropping written.removed
  | .read (.feedbackOn _ _), .ok rows => storing rows
  | .read (.feedback pair), .ok row =>
      match duty with
      | counted seen => loaded seen pair (row.map Feedback.linked)
      | _ => duty
  | .read (.feedback _), .error _ => settled
  | .feedbackCache .countWrites, seen => counted seen
  | .feedbackCache (.land _ _ _), _ => settled
  | .feedbackCache (.insert _ _), _ => owing duty.updates.tail
  | .feedbackCache (.invalidate _), _ => owing duty.updates.tail
  | _, _ => duty

def Permits : Duty → Call → Prop
  | owing [], .write (.upsertFeedback _) => True
  | owing [], .write (.deleteFeedbackInSet _ _) => True
  | owing [], .write (.deleteFeedbackOn _) => True
  | owing [], .read (.feedbackOn _ _) => True
  | owing [], .feedbackCache (.find _) => True
  | owing [], .feedbackCache .countWrites => True
  | counted _, .read (.feedback _) => True
  | loaded seen pair value, .feedbackCache (.land landed known count) =>
      landed = pair ∧ known = value ∧ count = seen
  | owing ((pair, value) :: _), .feedbackCache (.insert stored known) =>
      stored = pair ∧ known = value ∧ value ≠ none
  | owing ((pair, value) :: _), .feedbackCache (.invalidate dropped) => dropped = pair ∧ value = none
  | _, _ => False

def Answers : Answering Duty := fun duty call answer after => after = duty.next call answer

end Duty

namespace Action

open Duty

variable {α β : Type}

abbrev Settles (duty : Duty) (action : Action α) : Prop :=
  action.Ensures Duty.Answers Permits (fun _ after => after = settled)
    (fun _ after => after = settled) duty

theorem settles_pure (value : α) : (pure value : Action α).Settles settled := rfl

theorem settles_bind {duty : Duty} {action : Action α} {rest : α → Action β}
    (first : action.Settles duty) (then' : ∀ value, (rest value).Settles settled) :
    (action >>= rest).Settles duty := by
  refine (ensures_bind action rest duty).mpr (first.mono ?_)
  rintro value _ rfl
  exact then' value

theorem settles_refresh (rows : List Feedback) :
    (FeedbackService.refresh rows).Settles (storing rows) := by
  induction rows with
  | nil => rfl
  | cons row rows ih =>
      refine ⟨⟨rfl, rfl, nofun⟩, ?_⟩
      rintro _ _ rfl
      exact ih

theorem settles_forget (pairs : List EntityPair) :
    (FeedbackService.forget pairs).Settles (dropping pairs) := by
  induction pairs with
  | nil => rfl
  | cons pair pairs ih =>
      refine ⟨⟨rfl, rfl⟩, ?_⟩
      rintro _ _ rfl
      exact ih

theorem settles_add (a b : EntityKey) (linked : Bool) : (FeedbackService.add a b linked).Settles settled := by
  refine ⟨trivial, ?_⟩
  rintro answer _ rfl
  cases answer with
  | error error => rfl
  | ok written =>
      refine ⟨⟨rfl, rfl, nofun⟩, ?_⟩
      rintro _ _ rfl
      rfl

theorem settles_get (a b : EntityKey) : (FeedbackService.get a b).Settles settled := by
  refine settles_bind ?_ fun _ => settles_pure _
  refine ⟨trivial, ?_⟩
  rintro found _ rfl
  cases found with
  | some value => rfl
  | none =>
      refine ⟨trivial, ?_⟩
      rintro seen _ rfl
      refine ⟨trivial, ?_⟩
      rintro answer _ rfl
      cases answer with
      | error error => rfl
      | ok row =>
          refine ⟨⟨rfl, rfl, rfl⟩, ?_⟩
          rintro _ _ rfl
          rfl

theorem settles_hasNegative (a b : EntityKey) : (FeedbackService.hasNegative a b).Settles settled :=
  settles_bind (settles_get a b) fun _ => settles_pure _

theorem settles_onEntity (verdict : Verdict) (entity : EntityKey) :
    (FeedbackService.onEntity verdict entity).Settles settled := by
  refine ⟨trivial, ?_⟩
  rintro answer _ rfl
  cases answer with
  | error error => rfl
  | ok rows => exact settles_bind (settles_refresh rows) fun _ => settles_pure rows

theorem settles_positivePairs (entity : EntityKey) : (FeedbackService.positivePairs entity).Settles settled :=
  settles_bind (settles_onEntity .positive entity) fun _ => settles_pure _

theorem settles_delete {request : Write} (permitted : settled.Permits (.write request))
    (drops : ∀ written, settled.next (.write request) (.ok written) = dropping written.removed)
    (fails : ∀ error, settled.next (.write request) (.error error) = settled) :
    (FeedbackService.delete request).Settles settled := by
  refine ⟨permitted, ?_⟩
  rintro answer _ rfl
  cases answer with
  | error error => exact fails error
  | ok written =>
      change Action.Settles _ (do FeedbackService.forget written.removed; return written.count)
      rw [drops written]
      exact settles_bind (settles_forget _) fun _ => settles_pure _

end Action

inductive FeedbackOperation where
  | add (a b : EntityKey) (linked : Bool)
  | get (a b : EntityKey)
  | hasNegative (a b : EntityKey)
  | onEntity (verdict : Verdict) (entity : EntityKey)
  | positivePairs (entity : EntityKey)
  | deleteInSet (set : Id) (keys : Option IdSet)
  | deleteOn (entity : EntityKey)

namespace FeedbackOperation

def program : FeedbackOperation → Program Unit
  | add a b linked => do let _ ← (FeedbackService.add a b linked).run
  | get a b => do let _ ← (FeedbackService.get a b).run
  | hasNegative a b => do let _ ← (FeedbackService.hasNegative a b).run
  | onEntity verdict entity => do let _ ← (FeedbackService.onEntity verdict entity).run
  | positivePairs entity => do let _ ← (FeedbackService.positivePairs entity).run
  | deleteInSet set keys => do let _ ← (FeedbackService.deleteInSet set keys).run
  | deleteOn entity => do let _ ← (FeedbackService.deleteOn entity).run

theorem ensures_program (operation : FeedbackOperation) :
    operation.program.Ensures Duty.Answers Duty.Permits (fun _ after => after = .settled)
      .settled := by
  have drop : ∀ {α : Type} {action : Action α}, action.Settles .settled →
      Program.Ensures Duty.Answers Duty.Permits (fun _ after => after = .settled)
        (do let _ ← action.run) .settled :=
    fun settles => (Program.ensures_bind _ _ _).mpr (Program.Ensures.mono settles fun result _ => by
      cases result <;> exact id)
  cases operation with
  | add a b linked => exact drop (Action.settles_add a b linked)
  | get a b => exact drop (Action.settles_get a b)
  | hasNegative a b => exact drop (Action.settles_hasNegative a b)
  | onEntity verdict entity => exact drop (Action.settles_onEntity verdict entity)
  | positivePairs entity => exact drop (Action.settles_positivePairs entity)
  | deleteInSet set keys => exact drop (Action.settles_delete trivial (fun _ => rfl) fun _ => rfl)
  | deleteOn entity => exact drop (Action.settles_delete trivial (fun _ => rfl) fun _ => rfl)

end FeedbackOperation

end RecordLinkage
