import RecordLinkage.Program

/-! What a program ensures, whatever the answers to its calls: each call that it makes is safe, and its
result and the state that it leaves satisfy a condition. What is ensured over one kind of state is
ensured over every other that it simulates. -/

namespace RecordLinkage

abbrev Answering (σ : Type) := σ → (call : Call) → call.Answer → σ → Prop

namespace Program

variable {α β σ τ : Type} {answers : Answering σ} {safe : σ → Call → Prop}

inductive Runs (answers : Answering σ) : Program α → σ → α → σ → Prop
  | done (value : α) (state : σ) : Runs answers (.done value) state value state
  | ask {call : Call} {next : call.Answer → Program α} {answer : call.Answer}
      {state middle final : σ} {value : α} :
      answers state call answer middle → Runs answers (next answer) middle value final →
      Runs answers (.ask call next) state value final

def Ensures (answers : Answering σ) (safe : σ → Call → Prop) (post : α → σ → Prop) :
    Program α → σ → Prop
  | done value, state => post value state
  | ask call next, state => safe state call ∧
      ∀ answer after, answers state call answer after → (next answer).Ensures answers safe post after

theorem Ensures.mono {post weaker : α → σ → Prop} {program : Program α} {state : σ}
    (ensured : program.Ensures answers safe post state)
    (weaken : ∀ value state, post value state → weaker value state) :
    program.Ensures answers safe weaker state := by
  induction program generalizing state with
  | done value => exact weaken value state ensured
  | ask call next ih =>
      exact ⟨ensured.1, fun answer after answered => ih answer (ensured.2 answer after answered)⟩

theorem Ensures.allow {weaker : σ → Call → Prop} {post : α → σ → Prop} {program : Program α} {state : σ}
    (ensured : program.Ensures answers safe post state)
    (allow : ∀ state call, safe state call → weaker state call) :
    program.Ensures answers weaker post state := by
  induction program generalizing state with
  | done value => exact ensured
  | ask call next ih =>
      exact ⟨allow state call ensured.1, fun answer after answered =>
        ih answer (ensured.2 answer after answered)⟩

theorem Ensures.fewer {fewer : Answering σ} {post : α → σ → Prop} {program : Program α} {state : σ}
    (ensured : program.Ensures answers safe post state)
    (given : ∀ state call answer after, fewer state call answer after → answers state call answer after) :
    program.Ensures fewer safe post state := by
  induction program generalizing state with
  | done value => exact ensured
  | ask call next ih =>
      exact ⟨ensured.1, fun answer after answered =>
        ih answer (ensured.2 answer after (given _ _ _ _ answered))⟩

theorem Ensures.and {also : σ → Call → Prop} {post holds : α → σ → Prop} {program : Program α}
    {state : σ} (ensured : program.Ensures answers safe post state)
    (ensured' : program.Ensures answers also holds state) :
    program.Ensures answers safe (fun value state => post value state ∧ holds value state) state := by
  induction program generalizing state with
  | done value => exact ⟨ensured, ensured'⟩
  | ask call next ih =>
      exact ⟨ensured.1, fun answer after answered =>
        ih answer (ensured.2 answer after answered) (ensured'.2 answer after answered)⟩

theorem ensures_bind {post : β → σ → Prop} (program : Program α) (rest : α → Program β)
    (state : σ) :
    (program >>= rest).Ensures answers safe post state ↔
      program.Ensures answers safe (fun value => (rest value).Ensures answers safe post) state := by
  change (program.bind rest).Ensures answers safe post state ↔ _
  induction program generalizing state with
  | done value => rfl
  | ask call next ih => simp only [bind, Ensures, ih]

theorem ensures_pure {post : α → σ → Prop} (value : α) (state : σ) :
    (pure value : Program α).Ensures answers safe post state ↔ post value state := Iff.rfl

theorem Runs.ensured {post : α → σ → Prop} {program : Program α} {state final : σ} {value : α}
    (run : Runs answers program state value final)
    (ensured : program.Ensures answers safe post state) : post value final := by
  induction run with
  | done => exact ensured
  | ask answered _ ih => exact ih (ensured.2 _ _ answered)

/-- What holds over the states `τ` holds over the states `σ`, if every answer of a related `σ` to a safe
call is one of the `τ`. -/
theorem Ensures.simulate {answers' : Answering τ} {safe' : τ → Call → Prop}
    {post : α → τ → Prop} {program : Program α} {state : σ} {image : τ}
    (ensured : program.Ensures answers' safe' post image) (related : σ → τ → Prop)
    (start : related state image)
    (allowed : ∀ state image call, related state image → safe' image call → safe state call)
    (answered : ∀ state image call answer after, related state image → safe' image call →
      answers state call answer after →
      ∃ image', answers' image call answer image' ∧ related after image') :
    program.Ensures answers safe (fun value state => ∃ image, related state image ∧ post value image)
      state := by
  induction program generalizing state image with
  | done value => exact ⟨image, start, ensured⟩
  | ask call next ih =>
      refine ⟨allowed state image call start ensured.1, ?_⟩
      intro answer after given
      obtain ⟨image', given', related'⟩ :=
        answered state image call answer after start ensured.1 given
      exact ih answer (ensured.2 answer image' given') related'

def answeredBy (answer? : σ → (call : Call) → Option (call.Answer × σ)) : Answering σ :=
  fun state call answer after => answer? state call = some (answer, after)

def result? : Program α → Option α
  | done value => some value
  | ask _ _ => none

theorem eq_done_of_any {program : Program α} {test : α → Bool} (ended : program.result?.any test) :
    ∃ value, test value ∧ program = .done value := by
  cases program with
  | done value => exact ⟨value, ended, rfl⟩
  | ask => cases ended

theorem runs_of_result {answer? : σ → (call : Call) → Option (call.Answer × σ)}
    {program : Program α} {state : σ} {value : α}
    (ended : (program.run answer? state).1.result? = some value) :
    Runs (answeredBy answer?) program state value (program.run answer? state).2 := by
  induction program generalizing state with
  | done result =>
      obtain rfl := Option.some.inj ended
      exact .done result state
  | ask call next ih =>
      cases given : answer? state call with
      | none =>
          simp only [run, given] at ended
          contradiction
      | some answered =>
          simp only [run, given] at ended ⊢
          exact .ask given (ih answered.1 ended)

theorem Runs.mono {weaker : Answering σ} {program : Program α} {state final : σ} {value : α}
    (run : Runs answers program state value final)
    (weaken : ∀ state call answer after, answers state call answer after →
      weaker state call answer after) : Runs weaker program state value final := by
  induction run with
  | done value state => exact .done value state
  | ask answered _ ih => exact .ask (weaken _ _ _ _ answered) ih

theorem Ensures.run_eq {answer? : σ → (call : Call) → Option (call.Answer × σ)}
    {post : α → σ → Prop} {program : Program α} {state : σ}
    (ensured : program.Ensures (answeredBy answer?) (fun state call => (answer? state call).isSome)
      post state) :
    ∃ value final, program.run answer? state = (.done value, final) ∧ post value final := by
  induction program generalizing state with
  | done value => exact ⟨value, state, rfl, ensured⟩
  | ask call next ih =>
      obtain ⟨⟨answer, after⟩, answered⟩ := Option.isSome_iff_exists.mp ensured.1
      obtain ⟨value, final, run, holds⟩ := ih answer (ensured.2 answer after answered)
      exact ⟨value, final, by simp only [Program.run, answered, run], holds⟩

end Program

namespace Action

variable {α β σ : Type} {answers : Answering σ} {safe : σ → Call → Prop}
  {refused : LinkError → σ → Prop}

def outcome (refused : LinkError → σ → Prop) (post : α → σ → Prop) :
    Except LinkError α → σ → Prop
  | .ok value => post value
  | .error error => refused error

def Ensures (answers : Answering σ) (safe : σ → Call → Prop) (refused : LinkError → σ → Prop)
    (post : α → σ → Prop) (action : Action α) (state : σ) : Prop :=
  action.run.Ensures answers safe (outcome refused post) state

theorem ensures_bind {post : β → σ → Prop} (action : Action α) (rest : α → Action β) (state : σ) :
    (action >>= rest).Ensures answers safe refused post state ↔
      action.Ensures answers safe refused
        (fun value => (rest value).Ensures answers safe refused post) state := by
  simp only [Ensures, ExceptT.run_bind, Program.ensures_bind]
  constructor
  all_goals
    intro ensured
    refine ensured.mono ?_
    intro result state holds
    cases result <;> exact holds

theorem ensures_pure {post : α → σ → Prop} (value : α) (state : σ) :
    (pure value : Action α).Ensures answers safe refused post state ↔ post value state := Iff.rfl

theorem ensures_throw {post : α → σ → Prop} (error : LinkError) (state : σ) :
    (throw error : Action α).Ensures answers safe refused post state ↔ refused error state :=
  Iff.rfl

theorem ensures_lift {post : α → σ → Prop} (program : Program α) (state : σ) :
    Action.Ensures answers safe refused post (ExceptT.lift program) state ↔
      program.Ensures answers safe post state := by
  change (program.bind fun value => pure (.ok value)).Ensures answers safe
    (outcome refused post) state ↔ _
  exact Program.ensures_bind program _ state

theorem Ensures.mono {post weaker : α → σ → Prop} {action : Action α} {state : σ}
    (ensured : action.Ensures answers safe refused post state)
    (weaken : ∀ value state, post value state → weaker value state) :
    action.Ensures answers safe refused weaker state := by
  refine Program.Ensures.mono ensured ?_
  intro result state holds
  cases result with
  | ok value => exact weaken value state holds
  | error error => exact holds

theorem Ensures.refuse {weaker : LinkError → σ → Prop} {post : α → σ → Prop} {action : Action α} {state : σ}
    (ensured : action.Ensures answers safe refused post state)
    (refuse : ∀ error state, refused error state → weaker error state) :
    action.Ensures answers safe weaker post state := by
  refine Program.Ensures.mono ensured ?_
  intro result state holds
  cases result with
  | ok value => exact holds
  | error error => exact refuse error state holds

theorem ensures_onFailure {post : α → σ → Prop} (action : Action α) (cleanup : Program Unit)
    (state : σ) :
    (action.onFailure cleanup).Ensures answers safe refused post state ↔
      action.Ensures answers safe
        (fun error => cleanup.Ensures answers safe fun _ => refused error) post state := by
  change Program.Ensures answers safe (outcome refused post) (action.run >>= _) state ↔ _
  rw [Program.ensures_bind]
  constructor
  · intro ensured
    refine Program.Ensures.mono ensured ?_
    intro result state holds
    cases result with
    | ok value => exact holds
    | error error => exact (Program.ensures_bind cleanup _ state).mp holds
  · intro ensured
    refine Program.Ensures.mono ensured ?_
    intro result state holds
    cases result with
    | ok value => exact holds
    | error error => exact (Program.ensures_bind cleanup _ state).mpr holds

theorem ensures_thenAlways {post : α → σ → Prop} (action : Action α) (cleanup : Program Unit)
    (state : σ) :
    (action.thenAlways cleanup).Ensures answers safe refused post state ↔
      action.run.Ensures answers safe
        (fun result => cleanup.Ensures answers safe fun _ => outcome refused post result) state := by
  change Program.Ensures answers safe (outcome refused post) (action.run >>= _) state ↔ _
  rw [Program.ensures_bind]
  constructor
  all_goals
    intro ensured
    refine Program.Ensures.mono ensured ?_
    intro result state holds
  · exact (Program.ensures_bind cleanup _ state).mp holds
  · exact (Program.ensures_bind cleanup _ state).mpr holds

end Action

end RecordLinkage
