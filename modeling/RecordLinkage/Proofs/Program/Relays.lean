import RecordLinkage.Proofs.Program.Ensures

/-! Actions that make only some calls and fail only when such a call does, with its error. What each of these
calls keeps holds wherever the action ends. -/

namespace RecordLinkage

namespace Call

def error? : (call : Call) → call.Answer → Option LinkError
  | .host _, .error error => some error
  | .read _, .error error => some error
  | .write _, .error error => some error
  | .index _, .error error => some error
  | _, _ => none

end Call

namespace Action

variable {α β σ : Type} {allowed : Call → Prop}

def Relays (allowed : Call → Prop) (action : Action α) : Prop :=
  ∀ last : Option LinkError, action.Ensures (fun _ call answer heard => heard = call.error? answer)
    (fun _ => allowed) (fun error heard => heard = some error) (fun _ _ => True) last

theorem relays_pure (value : α) : (pure value : Action α).Relays allowed := fun _ => trivial

theorem relays_bind {action : Action α} {rest : α → Action β} (first : action.Relays allowed)
    (then' : ∀ value, (rest value).Relays allowed) : (action >>= rest).Relays allowed :=
  fun last => (ensures_bind _ _ _).mpr ((first last).mono fun value heard _ => then' value heard)

theorem relays_lift {call : Call} (fits : allowed call) :
    Action.Relays allowed (ExceptT.lift (Program.perform call)) :=
  fun _ => (ensures_lift _ _).mpr ⟨fits, fun _ _ _ => trivial⟩

theorem relays_write {request : Write} (fits : allowed (.write request)) :
    (Action.write request).Relays allowed := by
  refine fun _ => ⟨fits, ?_⟩
  rintro answer _ rfl
  cases answer with
  | ok written => trivial
  | error error => rfl

theorem relays_index {call : IndexCall} (fits : allowed (.index call)) :
    (Action.index call).Relays allowed := by
  refine fun _ => ⟨fits, ?_⟩
  rintro answer _ rfl
  cases answer with
  | ok answer => trivial
  | error error => rfl

theorem Relays.allow {weaker : Call → Prop} {action : Action α} (relays : action.Relays allowed)
    (allow : ∀ call, allowed call → weaker call) : action.Relays weaker :=
  fun last => Program.Ensures.allow (relays last) fun _ => allow

theorem Relays.ensures {answers : Answering σ} {safe : σ → Call → Prop} {refused : LinkError → σ → Prop}
    {holds : σ → Prop} {action : Action α} {state : σ} (relays : action.Relays allowed) (start : holds state)
    (fits : ∀ state call, holds state → allowed call → safe state call)
    (kept : ∀ state call answer after, holds state → allowed call → answers state call answer after →
      holds after)
    (fails : ∀ state call answer after error, holds state → allowed call → answers state call answer after →
      call.error? answer = some error → refused error after) :
    action.Ensures answers safe refused (fun _ => holds) state := by
  refine Program.Ensures.mono (Program.Ensures.simulate (relays none)
    (fun state heard => holds state ∧ ∀ error, heard = some error → refused error state)
    ⟨start, nofun⟩ (fun state _ call related => fits state call related.1) ?_) ?_
  · rintro state _ call answer after ⟨related, _⟩ permitted answered
    exact ⟨call.error? answer, rfl, kept _ _ _ _ related permitted answered,
      fun error => fails _ _ _ _ error related permitted answered⟩
  · rintro result after ⟨heard, ⟨related, failed⟩, ended⟩
    cases result with
    | ok value => exact related
    | error error => exact failed error ended

end Action

end RecordLinkage
