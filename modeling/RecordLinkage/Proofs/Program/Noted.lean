import RecordLinkage.Proofs.Program.Answers

/-! Calls that are noted: beside what a program ensures it can be said which calls it has made, and in which
order. -/

namespace RecordLinkage

def Answering.noting {σ : Type} (answers : Answering σ) : Answering (σ × List Call) :=
  fun state call answer after => answers state.1 call answer after.1 ∧ after.2 = state.2 ++ [call]

namespace Program

variable {α σ τ : Type} {answers : Answering σ} {safe : σ → Call → Prop} {post : α → σ → Prop} {program : Program α}
  {state : σ}

/-- A program notes no other calls than those that it may make. -/
theorem Ensures.noted {allowed : Call → Prop} {heard : Answering Unit} {holds : α → Unit → Prop}
    (ensured : program.Ensures answers safe post state)
    (asks : program.Ensures heard (fun _ => allowed) holds ())
    (hears : ∀ state call answer after, answers state call answer after → heard () call answer ()) (calls : List Call) :
    program.Ensures answers.noting (fun state => safe state.1) (fun value after => post value after.1 ∧
      ∃ made, after.2 = calls ++ made ∧ ∀ call ∈ made, allowed call) (state, calls) := by
  induction program generalizing state calls with
  | done value => exact ⟨ensured, [], by simp⟩
  | ask call next ih =>
      refine ⟨ensured.1, ?_⟩
      rintro answer ⟨after, _⟩ ⟨answered, rfl⟩
      refine (ih answer (ensured.2 answer after answered) (asks.2 answer () (hears _ _ _ _ answered))
        (calls ++ [call])).mono ?_
      rintro value ⟨after, _⟩ ⟨holds, made, rfl, allowed⟩
      exact ⟨holds, call :: made, by simp, List.forall_mem_cons.mpr ⟨asks.1, allowed⟩⟩

/-- What is ensured over one kind of state with the calls noted is so over any other that it simulates. -/
theorem Ensures.simulate_noted {answers' : Answering τ} {safe' : τ × List Call → Call → Prop}
    {post : α → τ × List Call → Prop} {image : τ} {calls : List Call}
    (ensured : program.Ensures answers'.noting safe' post (image, calls)) (related : σ → τ → Prop)
    (start : related state image)
    (allowed : ∀ state image call, related state image.1 → safe' image call → safe state call)
    (answered : ∀ state image call answer after, related state image.1 → safe' image call →
      answers state call answer after → ∃ image', answers' image.1 call answer image' ∧ related after image') :
    program.Ensures answers.noting (fun state => safe state.1)
      (fun value after => ∃ image, related after.1 image ∧ post value (image, after.2)) (state, calls) := by
  refine (ensured.simulate (fun state image => related state.1 image.1 ∧ state.2 = image.2) ⟨start, rfl⟩ ?_ ?_).mono ?_
  · exact fun state image call held => allowed state.1 image call held.1
  · rintro state image call answer after ⟨held, same⟩ fits ⟨given, noted⟩
    obtain ⟨image', given', held'⟩ := answered state.1 image call answer after.1 held fits given
    exact ⟨(image', image.2 ++ [call]), ⟨given', rfl⟩, held', by rw [noted, same]⟩
  · rintro value after ⟨image, ⟨held, same⟩, holds⟩
    exact ⟨image.1, held, same ▸ holds⟩

/-- A program comes to its end if every safe call has an answer. -/
theorem Ensures.exists_runs (ensured : program.Ensures answers safe post state)
    (answerable : ∀ state call, safe state call → ∃ answer after, answers state call answer after) :
    ∃ value final, Runs answers program state value final := by
  induction program generalizing state with
  | done value => exact ⟨value, state, .done value state⟩
  | ask call next ih =>
      obtain ⟨answer, after, answered⟩ := answerable state call ensured.1
      obtain ⟨value, final, runs⟩ := ih answer (ensured.2 answer after answered)
      exact ⟨value, final, .ask answered runs⟩

end Program

end RecordLinkage
