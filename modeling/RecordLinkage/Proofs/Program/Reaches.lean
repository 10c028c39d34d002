import Mathlib.Logic.Relation
import RecordLinkage.Proofs.Program.Ensures

/-! How far a run may come before it stops, and what holds there. A run of one program after another is a
run of the first and then one of the second. A list of moves, each of which is a step, is a run of several
programs whose calls mix. -/

namespace RecordLinkage

theorem steps_of_moves {σ μ : Type} {step : σ → σ → Prop} {move? : σ → μ → Option σ}
    {state after : σ} {moves : List μ} (ran : moves.foldlM move? state = some after)
    (steps : ∀ state move after, move? state move = some after → step state after) :
    Relation.ReflTransGen step state after := by
  induction moves generalizing state with
  | nil =>
      obtain rfl := Option.some.inj ran
      exact .refl
  | cons move moves ih =>
      rw [List.foldlM_cons] at ran
      obtain ⟨middle, moved, ran⟩ := Option.bind_eq_some_iff.mp ran
      exact .head (steps _ _ _ moved) (ih ran)

namespace Program

variable {α β σ τ : Type} {answers : Answering σ}

inductive Reaches (answers : Answering σ) : Program α → σ → Program α → σ → Prop
  | here (program : Program α) (state : σ) : Reaches answers program state program state
  | ask {call : Call} {next : call.Answer → Program α} {answer : call.Answer} {rest : Program α}
      {state middle final : σ} :
      answers state call answer middle → Reaches answers (next answer) middle rest final →
      Reaches answers (.ask call next) state rest final

variable {program rest : Program α} {state final : σ}

theorem Runs.reaches {value : α} (run : Runs answers program state value final) :
    Reaches answers program state (.done value) final := by
  induction run with
  | done value state => exact .here _ _
  | ask answered _ ih => exact .ask answered ih

/-- A program that is answered runs until it is done or has to wait. -/
theorem reaches_run (answer? : σ → (call : Call) → Option (call.Answer × σ)) (program : Program α) (state : σ) :
    Reaches (answeredBy answer?) program state (program.run answer? state).1 (program.run answer? state).2 := by
  induction program generalizing state with
  | done value => exact .here _ _
  | ask call next ih =>
      simp only [run]
      split
      · rename_i answer after answered
        exact .ask answered (ih answer after)
      · exact .here _ _

theorem Reaches.mono {weaker : Answering σ} (reached : Reaches answers program state rest final)
    (weaken : ∀ state call answer after, answers state call answer after →
      weaker state call answer after) : Reaches weaker program state rest final := by
  induction reached with
  | here => exact .here _ _
  | ask answered _ ih => exact .ask (weaken _ _ _ _ answered) ih

theorem Reaches.snoc {call : Call} {next : call.Answer → Program α} {answer : call.Answer} {after : σ}
    (reached : Reaches answers program state (.ask call next) final)
    (answered : answers final call answer after) :
    Reaches answers program state (next answer) after := by
  generalize same : Program.ask call next = rest at reached
  induction reached with
  | here => exact same ▸ .ask answered (.here _ _)
  | ask given _ ih => exact .ask given (ih answered same)

theorem Reaches.ensured {safe : σ → Call → Prop} {post : α → σ → Prop}
    (reached : Reaches answers program state rest final)
    (ensured : program.Ensures answers safe post state) : rest.Ensures answers safe post final := by
  induction reached with
  | here => exact ensured
  | ask answered _ ih => exact ih (ensured.2 _ _ answered)

/-- What every safe call keeps holds as long as all calls are safe. -/
theorem Reaches.keeps {safe : σ → Call → Prop} {post : α → σ → Prop}
    (reached : Reaches answers program state rest final)
    (ensured : program.Ensures answers safe post state) (holds : σ → Prop) (start : holds state)
    (kept : ∀ state call answer after, holds state → safe state call →
      answers state call answer after → holds after) : holds final := by
  induction reached with
  | here => exact start
  | ask answered _ ih =>
      exact ih (ensured.2 _ _ answered) (kept _ _ _ _ start ensured.1 answered)

/-- Over related states, what is ensured is still ensured of what is left. -/
theorem Reaches.simulated {answers' : Answering τ} {safe : τ → Call → Prop} {post : α → τ → Prop}
    {image : τ} (reached : Reaches answers program state rest final)
    (ensured : program.Ensures answers' safe post image) (related : σ → τ → Prop)
    (start : related state image)
    (answered : ∀ state image call answer after, related state image → safe image call →
      answers state call answer after →
      ∃ image', answers' image call answer image' ∧ related after image') :
    ∃ image, related final image ∧ rest.Ensures answers' safe post image := by
  induction reached generalizing image with
  | here => exact ⟨image, start, ensured⟩
  | ask given _ ih =>
      obtain ⟨image', given', related'⟩ := answered _ image _ _ _ start ensured.1 given
      exact ih (ensured.2 _ image' given') related'

theorem Runs.simulated {answers' : Answering τ} {safe : τ → Call → Prop} {post : α → τ → Prop}
    {image : τ} {value : α} (run : Runs answers program state value final)
    (ensured : program.Ensures answers' safe post image) (related : σ → τ → Prop)
    (start : related state image)
    (answered : ∀ state image call answer after, related state image → safe image call →
      answers state call answer after →
      ∃ image', answers' image call answer image' ∧ related after image') :
    ∃ image, related final image ∧ post value image :=
  run.reaches.simulated ensured related start answered

theorem Runs.keeps {value : α} (run : Runs answers program state value final) (holds : σ → Prop)
    (start : holds state)
    (kept : ∀ state call answer after, holds state → answers state call answer after → holds after) :
    holds final := by
  induction run with
  | done => exact start
  | ask answered _ ih => exact ih (kept _ _ _ _ start answered)

/-- A quantity that no call lessens is at no point of a run greater than at its end. -/
theorem Runs.upTo {value : α} (run : Runs answers program state value final) (quantity : σ → Nat)
    (grows : ∀ state call answer after, answers state call answer after → quantity state ≤ quantity after) :
    quantity state ≤ quantity final ∧ Runs (fun state call answer after =>
      answers state call answer after ∧ quantity after ≤ quantity final) program state value final := by
  induction run with
  | done value state => exact ⟨Nat.le_refl _, .done value state⟩
  | ask answered _ ih => exact ⟨Nat.le_trans (grows _ _ _ _ answered) ih.1, .ask ⟨answered, ih.1⟩ ih.2⟩

theorem Runs.mono_of {weaker : Answering σ} {holds : σ → Prop} {value : α}
    (run : Runs answers program state value final) (start : holds state)
    (weaken : ∀ state call answer after, holds state → answers state call answer after →
      weaker state call answer after ∧ holds after) : Runs weaker program state value final := by
  induction run with
  | done value state => exact .done value state
  | ask answered _ ih =>
      obtain ⟨given, kept⟩ := weaken _ _ _ _ start answered
      exact .ask given (ih kept)

theorem Runs.bind {first : Program α} {second : α → Program β} {middle : σ} {found : α} {value : β}
    (run : Runs answers first state found middle) (rest : Runs answers (second found) middle value final) :
    Runs answers (first >>= second) state value final := by
  induction run with
  | done => exact rest
  | ask answered _ ih => exact .ask answered (ih rest)

theorem Runs.of_bind {first : Program α} {second : α → Program β} {value : β}
    (run : Runs answers (first >>= second) state value final) :
    ∃ found middle, Runs answers first state found middle ∧
      Runs answers (second found) middle value final := by
  induction first generalizing state with
  | done found => exact ⟨found, state, .done _ _, run⟩
  | ask call next ih =>
      cases run with
      | ask answered run =>
          obtain ⟨found, middle, before, after⟩ := ih _ run
          exact ⟨found, middle, .ask answered before, after⟩

end Program

namespace Action

variable {α β σ : Type} {answers : Answering σ} {state final : σ}

theorem runs_bind {action : Action α} {rest : α → Action β} {result : Except LinkError β}
    (run : Program.Runs answers (action >>= rest).run state result final) :
    (∃ error, result = .error error ∧ Program.Runs answers action.run state (.error error) final) ∨
    ∃ value middle, Program.Runs answers action.run state (.ok value) middle ∧
      Program.Runs answers (rest value).run middle result final := by
  rw [ExceptT.run_bind] at run
  obtain ⟨found, middle, first, second⟩ := run.of_bind
  cases found with
  | ok value => exact .inr ⟨value, middle, first, second⟩
  | error error =>
      cases second with
      | done => exact .inl ⟨error, rfl, first⟩

theorem runs_of_bind {action : Action α} {rest : α → Action β} {value : α} {middle : σ}
    {result : Except LinkError β} (first : Program.Runs answers action.run state (.ok value) middle)
    (second : Program.Runs answers (rest value).run middle result final) :
    Program.Runs answers (action >>= rest).run state result final := by
  rw [ExceptT.run_bind]
  exact first.bind second

end Action

end RecordLinkage
