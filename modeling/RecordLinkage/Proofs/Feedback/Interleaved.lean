import Mathlib.Logic.Relation
import RecordLinkage.Proofs.Feedback.Agreement
import RecordLinkage.Proofs.Linking.Preparing
import RecordLinkage.Proofs.Program.Reaches

/-! Callers that share one feedback service. Each operation touches the table and the cache in separate
calls, and the calls of several operations mix. Once all are done, a look-up answers what the table has
for every pair whose row nobody changed while another caller was still going to tell the cache an older
verdict. Otherwise the older verdict may come last, and the look-up answers it from then on. -/

namespace RecordLinkage

structure FeedbackCaller where
  rest : Program Unit
  duty : Duty

structure FeedbackCallers where
  system : System
  callers : List FeedbackCaller

namespace FeedbackCallers

def start (system : System) (count : Nat) : FeedbackCallers :=
  ⟨system, .replicate count ⟨.done (), .settled⟩⟩

/-- One caller begins an operation or makes its next call. The row of a calm pair is changed only when no
other caller owes the cache a verdict on it. -/
inductive Step (calm : EntityPair → Prop) : FeedbackCallers → FeedbackCallers → Prop
  | begin {system : System} {callers : List FeedbackCaller} {index : Nat}
      (operation : FeedbackOperation) :
      callers[index]? = some ⟨.done (), .settled⟩ →
      Step calm ⟨system, callers⟩ ⟨system, callers.set index ⟨operation.program, .settled⟩⟩
  | call {system after : System} {callers : List FeedbackCaller} {index : Nat} {call : Call}
      {next : call.Answer → Program Unit} {duty : Duty} {answer : call.Answer} :
      callers[index]? = some ⟨.ask call next, duty⟩ →
      System.Answers True system call answer after →
      (∀ pair, calm pair → after.stored pair ≠ system.stored pair → ∀ other caller, other ≠ index →
        callers[other]? = some caller → ¬caller.duty.Owes pair) →
      Step calm ⟨system, callers⟩ ⟨after, callers.set index ⟨next answer, duty.next call answer⟩⟩

def Idle (state : FeedbackCallers) : Prop := ∀ caller ∈ state.callers, caller.rest = .done ()

structure Orderly (calm : EntityPair → Prop) (state : FeedbackCallers) : Prop where
  settles : ∀ caller ∈ state.callers, caller.rest.Ensures Duty.Answers Duty.Permits
    (fun _ after => after = .settled) caller.duty
  agrees : ∀ pair, calm pair → state.system.Agrees (state.callers.map FeedbackCaller.duty) pair

variable {calm : EntityPair → Prop} {state after : FeedbackCallers}

theorem orderly_start {system : System} (cold : system.feedbackCache.entries = ∅) (count : Nat) :
    (start system count).Orderly calm := by
  have settled : ∀ duty ∈ (start system count).callers.map FeedbackCaller.duty, duty = .settled := by
    simp [start]
  constructor
  · intro caller listed
    rw [List.eq_of_mem_replicate listed]
    exact rfl
  · intro pair _
    constructor
    · intro _
      simp [start, cold]
    · intro duty listed
      rw [settled duty listed]
      exact Nat.zero_le _
    · intro duty listed value owed
      rw [settled duty listed] at owed
      cases owed
    · intro value known
      simp [start, cold] at known
    · intro value listed
      cases settled _ listed

theorem Orderly.step (orderly : state.Orderly calm) (step : Step calm state after) :
    after.Orderly calm := by
  cases step with
  | @begin system callers index operation found =>
      have same : (callers.set index ⟨operation.program, .settled⟩).map FeedbackCaller.duty =
          callers.map FeedbackCaller.duty := by
        have known : (callers.map FeedbackCaller.duty)[index]? = some .settled := by simp [found]
        obtain ⟨bound, own⟩ := List.getElem?_eq_some_iff.mp known
        rw [List.map_set, ← own, List.set_getElem_self]
      refine ⟨?_, fun pair still => same ▸ orderly.agrees pair still⟩
      intro caller listed
      rcases List.mem_or_eq_of_mem_set listed with listed | rfl
      · exact orderly.settles caller listed
      · exact operation.ensures_program
  | @call system middle callers index call next duty answer found answered alone =>
      obtain ⟨permitted, later⟩ := orderly.settles _ (List.mem_of_getElem? found)
      constructor
      · intro caller listed
        rcases List.mem_or_eq_of_mem_set listed with listed | rfl
        · exact orderly.settles caller listed
        · exact later answer _ rfl
      · intro pair still
        simp only [List.map_set]
        refine (orderly.agrees pair still).call (by simp [found]) permitted answered.1 ?_
        intro changes other known apart among
        simp only [List.getElem?_map, Option.map_eq_some_iff] at among
        obtain ⟨caller, among, rfl⟩ := among
        exact alone pair still changes other caller apart among

theorem orderly_of_reached {system : System} {count : Nat} (cold : system.feedbackCache.entries = ∅)
    (reached : Relation.ReflTransGen (Step calm) (start system count) state) : state.Orderly calm := by
  induction reached with
  | refl => exact orderly_start cold count
  | tail _ step ih => exact ih.step step

theorem Orderly.cached_of_idle {pair : EntityPair} {value : Option Bool} (orderly : state.Orderly calm)
    (idle : state.Idle) (still : calm pair)
    (known : state.system.feedbackCache.entries[pair]? = some value) :
    state.system.stored pair = value := by
  refine ((orderly.agrees pair still).cached value known).resolve_right ?_
  rintro ⟨duty, listed, owes⟩
  obtain ⟨caller, among, rfl⟩ := List.mem_map.mp listed
  have settles := orderly.settles caller among
  rw [idle caller among] at settles
  rw [show caller.duty = .settled from settles] at owes
  exact Duty.not_owes_settled owes

end FeedbackCallers

namespace System

def Serves (system : System) (call : Call) : Prop :=
  ∃ answer after, system.answer? call = some (answer, after) ∧ call.Succeeds answer

/-- A look-up of the verdict on two entities ends, alone and with entries that vanish meanwhile, and it
answers the row that is in the table. -/
def Tells (system : System) (a b : EntityKey) : Prop :=
  let row := system.store.tables.feedback.get? (.of a b)
  ((FeedbackService.get a b).run.run System.answer? system).1.result? = some (.ok row) ∧
    ∀ result after, Program.Runs (System.Answers False) (FeedbackService.get a b).run system result after →
      result = .ok row

theorem ensures_get {system : System} {a b : EntityKey}
    (right : ∀ value, system.feedbackCache.entries[EntityPair.of a b]? = some value →
      system.stored (.of a b) = value) :
    (FeedbackService.get a b).run.Ensures (System.Answers False) Serves
      (fun result _ => result = .ok (system.store.tables.feedback.get? (.of a b))) system := by
  refine ⟨⟨_, _, rfl, trivial⟩, ?_⟩
  rintro found _ ⟨⟨_, ⟨lost, answered⟩, rfl⟩, _⟩
  obtain ⟨rfl, rfl⟩ := Prod.mk.injEq .. ▸ answered
  cases known : Cache.find? (lost.foldl Cache.evict system.feedbackCache) (EntityPair.of a b) with
  | some value =>
      have stored := right value ((system.feedbackCache.thins_evict lost).entries _ _ known)
      exact congrArg (fun value => Except.ok (value.map (Feedback.mk (.of a b)))) stored.symm
  | none =>
      refine ⟨⟨_, _, rfl, trivial⟩, ?_⟩
      rintro seen _ ⟨⟨_, _, rfl⟩, _⟩
      refine ⟨⟨_, _, rfl, trivial⟩, ?_⟩
      rintro answer _ ⟨possible, succeeds⟩
      cases answer with
      | error error => exact (succeeds.resolve_right id).elim
      | ok row =>
          obtain ⟨rfl, rfl⟩ := possible
          refine ⟨⟨_, _, rfl, trivial⟩, ?_⟩
          rintro _ _ ⟨⟨_, _, rfl⟩, _⟩
          exact congrArg (fun value => Except.ok (value.map (Feedback.mk (.of a b))))
            FeedbackTable.map_linked_get?

theorem tells_of_cached {system : System} {a b : EntityKey}
    (right : ∀ value, system.feedbackCache.entries[EntityPair.of a b]? = some value →
      system.stored (.of a b) = value) : system.Tells a b := by
  have ensured := ensures_get right
  refine ⟨?_, fun result after run => run.ensured ensured⟩
  have alone : (FeedbackService.get a b).run.Ensures (Program.answeredBy System.answer?)
      (fun state call => (state.answer? call).isSome)
      (fun result _ => result = .ok (system.store.tables.feedback.get? (.of a b))) system := by
    refine (ensured.simulate (fun state image => state = image) rfl ?_ ?_).mono ?_
    · rintro state _ call rfl ⟨answer, after, answered, _⟩
      simp [answered]
    · rintro state _ call answer after rfl ⟨_, _, answered, succeeds⟩ given
      obtain ⟨rfl, rfl⟩ := Prod.mk.injEq .. ▸ Option.some.inj (answered.symm.trans given)
      exact ⟨_, ⟨mayAnswer_of_answer? given, .inl succeeds⟩, rfl⟩
    · rintro result _ ⟨_, _, holds⟩
      exact holds
  obtain ⟨result, after, ended, rfl⟩ := alone.run_eq
  rw [ended]
  rfl

end System

namespace FeedbackCallers

variable {calm : EntityPair → Prop} {state : FeedbackCallers}

/-- Once nothing is in flight, a look-up answers the row of every calm pair. -/
theorem get_tells_table {system : System} {count : Nat} (cold : system.feedbackCache.entries = ∅)
    (reached : Relation.ReflTransGen (Step calm) (start system count) state) (idle : state.Idle)
    {a b : EntityKey} (still : calm (.of a b)) : state.system.Tells a b :=
  System.tells_of_cached fun _ known =>
    (orderly_of_reached cold reached).cached_of_idle idle still known

end FeedbackCallers

inductive FeedbackMove where
  | begin (index : Nat) (operation : FeedbackOperation)
  | call (index : Nat)

namespace FeedbackCallers

variable {calm : EntityPair → Prop} {state after : FeedbackCallers}

def quiet (state : FeedbackCallers) (index : Nat) : Bool :=
  (state.callers.eraseIdx index).all fun caller => caller.duty.updates.isEmpty

def move? (cautious : Bool) (state : FeedbackCallers) : FeedbackMove → Option FeedbackCallers
  | .begin index operation =>
      match state.callers[index]? with
      | some ⟨.done _, .owing []⟩ =>
          some ⟨state.system, state.callers.set index ⟨operation.program, .settled⟩⟩
      | _ => none
  | .call index =>
      match state.callers[index]? with
      | some ⟨.ask call next, duty⟩ =>
          if cautious && !state.quiet index then none
          else (state.system.answer? call).map fun (answer, system) =>
            ⟨system, state.callers.set index ⟨next answer, duty.next call answer⟩⟩
      | _ => none

theorem step_of_move {cautious : Bool} {move : FeedbackMove}
    (moved : state.move? cautious move = some after) (reckless : cautious = false → ∀ pair, ¬calm pair) :
    Step calm state after := by
  cases move with
  | begin index operation =>
      simp only [move?] at moved
      split at moved
      · rename_i found
        obtain rfl := Option.some.inj moved
        exact .begin operation found
      · cases moved
  | call index =>
      simp only [move?] at moved
      split at moved
      · rename_i call next duty found
        split at moved
        · cases moved
        · rename_i quiet
          obtain ⟨⟨answer, system⟩, answered, rfl⟩ := Option.map_eq_some_iff.mp moved
          refine .call found ⟨System.mayAnswer_of_answer? answered, .inr trivial⟩ ?_
          rintro pair still _ other caller apart among ⟨value, owed⟩
          cases cautious with
          | false => exact reckless rfl pair still
          | true =>
              have listed : caller ∈ state.callers.eraseIdx index :=
                List.mem_eraseIdx_iff_getElem?.mpr ⟨other, apart, among⟩
              have waited : state.quiet index = true := by simpa using quiet
              have none := List.all_eq_true.mp waited caller listed
              rw [List.isEmpty_iff.mp none] at owed
              cases owed
      · cases moved

theorem reached_of_moves {cautious : Bool} {moves : List FeedbackMove}
    (ran : moves.foldlM (move? cautious) state = some after)
    (reckless : cautious = false → ∀ pair, ¬calm pair) :
    Relation.ReflTransGen (Step calm) state after :=
  steps_of_moves ran fun _ _ _ moved => step_of_move moved reckless

theorem idle_of_results (ended : state.callers.all fun caller => caller.rest.result?.isSome) :
    state.Idle := by
  rintro ⟨rest, duty⟩ listed
  have done := List.all_eq_true.mp ended _ listed
  cases rest with
  | done value => rfl
  | ask call next => cases done

end FeedbackCallers

namespace Sample

def slowMiss : List FeedbackMove :=
  [.begin 0 (.get left right), .call 0, .call 0, .call 0,
    .begin 1 (.add left right true), .call 1, .call 1, .call 0]

/-- The rows about an entity are read, one of them is overwritten, and then those that were read refresh
the cache. -/
def lateRefresh : List FeedbackMove :=
  [.begin 0 (.add left right true), .call 0, .call 0,
    .begin 0 (.onEntity .all left), .call 0,
    .begin 1 (.add left right false), .call 1, .call 1,
    .call 0]

end Sample

namespace FeedbackCallers

open Sample

def finds (state : FeedbackCallers) (a b : EntityKey) (linked : Bool) : Bool :=
  match ((FeedbackService.get a b).run.run System.answer? state.system).1.result? with
  | some (.ok row) => row = some ⟨.of a b, linked⟩
  | _ => false

theorem result_of_finds {state : FeedbackCallers} {a b : EntityKey} {linked : Bool} (found : state.finds a b linked) :
    ((FeedbackService.get a b).run.run System.answer? state.system).1.result? =
      some (.ok (some ⟨.of a b, linked⟩)) := by
  unfold finds at found
  split at found
  · rename_i row ended
    rw [ended, of_decide_eq_true found]
  · cases found

theorem get_tells_table_after_slow_miss :
    ∃ state, Relation.ReflTransGen (Step (· = .of left right)) (start Sample.start 2) state ∧
      state.Idle ∧ state.system.stored (.of left right) = some true ∧ state.system.Tells left right := by
  have ran : (slowMiss.foldlM (move? true) (start Sample.start 2)).any fun state =>
      (state.callers.all fun caller => caller.rest.result?.isSome) &&
        state.system.stored (.of left right) = some true := by decide +kernel
  obtain ⟨state, ended, holds⟩ := (Option.any_eq_true _ _).mp ran
  obtain ⟨done, stored⟩ := Bool.and_eq_true_iff.mp holds
  have reached : Relation.ReflTransGen (Step (· = .of left right)) _ state := reached_of_moves ended nofun
  have idle := idle_of_results done
  exact ⟨state, reached, idle, by simpa using stored, get_tells_table rfl reached idle rfl⟩

/-- Nothing is in flight, and yet a look-up answers the older verdict and not the one in the table. -/
theorem get_finds_older_verdict :
    ∃ state, Relation.ReflTransGen (Step fun _ => False) (start Sample.start 2) state ∧
      state.Idle ∧ state.system.stored (.of left right) = some false ∧
      ((FeedbackService.get left right).run.run System.answer? state.system).1.result? =
        some (.ok (some ⟨.of left right, true⟩)) := by
  have ran : (lateRefresh.foldlM (move? false) (start Sample.start 2)).any fun state =>
      (state.callers.all fun caller => caller.rest.result?.isSome) &&
        (state.system.stored (.of left right) = some false && state.finds left right true) := by
    decide +kernel
  obtain ⟨state, ended, holds⟩ := (Option.any_eq_true _ _).mp ran
  obtain ⟨done, found⟩ := Bool.and_eq_true_iff.mp holds
  obtain ⟨stored, found⟩ := Bool.and_eq_true_iff.mp found
  exact ⟨state, reached_of_moves ended fun _ _ => id, idle_of_results done, of_decide_eq_true stored,
    result_of_finds found⟩

end FeedbackCallers

end RecordLinkage
