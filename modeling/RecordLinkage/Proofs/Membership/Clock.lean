import RecordLinkage.Proofs.Program.Answers
import RecordLinkage.Proofs.Program.Reaches

/-! How far the log clock gets. A tick is the wall clock or one microsecond after the last tick, so that the
clock is ahead of the end of the calendar by no more than the number of its readings. -/

namespace RecordLinkage

/-- The last instant of the calendar leaves room for more than a million million millions of ticks. -/
theorem Instant.micros_le (instant : Instant) : instant.micros + 10 ^ 18 ≤ Membership.latest := by
  obtain ⟨⟨year, month, day, years, months, days⟩, second, nano, fits⟩ := instant
  have last : year ≤ 262142 := years.2
  have short : daysInMonth year month ≤ 31 := by
    unfold daysInMonth
    split
    · split <;> omega
    · split <;> omega
  have seconds : second < 86400 := fits.1
  have nanos : nano < 2 * 10 ^ 9 := by
    rcases fits.2 with less | ⟨less, _⟩ <;> omega
  simp only [micros, Date.dayNumber, Membership.latest]
  split <;> omega

namespace System

structure Elapses (system after : System) : Prop where
  readings : system.readings ≤ after.readings
  lastTick : after.lastTick ≤ max system.lastTick (Membership.latest - 10 ^ 18) +
    (after.readings - system.readings : Nat)

variable {system middle after : System} {mayFail : Prop} {call : Call} {answer : call.Answer}

theorem elapses_of_eq (readings : after.readings = system.readings)
    (lastTick : after.lastTick = system.lastTick) : system.Elapses after where
  readings := Nat.le_of_eq readings.symm
  lastTick := by
    rw [readings, lastTick]
    omega

theorem Elapses.trans (first : system.Elapses middle) (second : middle.Elapses after) :
    system.Elapses after where
  readings := Nat.le_trans first.readings second.readings
  lastTick := by
    have readings := first.readings
    have later := second.readings
    have tick := first.lastTick
    have tick' := second.lastTick
    omega

theorem elapses_read (store : Store) : system.Elapses { system.read with store } where
  readings := Nat.le_succ _
  lastTick := by
    simp only [read]
    omega

theorem elapses_of_answers (answered : Answers mayFail system call answer after) :
    system.Elapses after := by
  have possible := answered.1
  have unchanged : system.Elapses system := elapses_of_eq rfl rfl
  cases call with
  | host => exact possible ▸ unchanged
  | read request =>
      cases answer with
      | ok answer => exact possible.2 ▸ unchanged
      | error error => exact possible ▸ unchanged
  | write request =>
      obtain ⟨_, _, store, _, _, rfl⟩ | ⟨_, _, rfl⟩ := possible
      · exact elapses_read store
      · exact unchanged
  | index request =>
      cases answer with
      | ok answer => exact possible.2 ▸ elapses_of_eq rfl rfl
      | error error => exact possible ▸ unchanged
  | feedbackCache | typeCache | setsCache =>
      obtain ⟨_, _, rfl⟩ := possible
      exact elapses_of_eq rfl rfl
  | lock request =>
      simp only [MayAnswer, answer?, Option.map_eq_some_iff, Prod.mk.injEq] at possible
      obtain ⟨_, _, _, rfl⟩ := possible
      exact elapses_of_eq rfl rfl
  | now =>
      simp only [MayAnswer, answer?, Option.some.injEq, Prod.mk.injEq] at possible
      exact possible.2 ▸ elapses_read system.store
  | drawId =>
      simp only [MayAnswer, answer?, Option.some.injEq, Prod.mk.injEq] at possible
      exact possible.2 ▸ elapses_of_eq rfl rfl
  | tick =>
      simp only [MayAnswer, answer?, Option.some.injEq, Prod.mk.injEq] at possible
      obtain ⟨_, rfl⟩ := possible
      have now := system.now.micros_le
      constructor
      · exact Nat.le_succ _
      · simp only [read, Membership.tick, Membership.latest] at now ⊢
        omega

theorem elapses_of_runs {α : Type} {program : Program α} {value : α}
    (run : Program.Runs (System.Answers mayFail) program system value after) :
    system.Elapses after :=
  run.keeps _ (elapses_of_eq rfl rfl) fun _ _ _ _ elapsed answered =>
    elapsed.trans (elapses_of_answers answered)

end System

end RecordLinkage
