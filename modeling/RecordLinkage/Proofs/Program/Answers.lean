import RecordLinkage.Proofs.Program.Ensures
import RecordLinkage.System

/-! How a system may answer a call when more than its own state has a say: the host answers what it likes,
calls to the host, the stores and the index may fail without an effect, the disk takes what it takes,
and caches lose entries. The answer of the system by itself is one of these. -/

namespace RecordLinkage

namespace Call

def Succeeds : (call : Call) → call.Answer → Prop
  | .host (.loadMany _ _), .ok items => ∀ item ∈ items, ∃ loaded, item = .ok loaded
  | .host _, .ok _ => True
  | .host _, .error _ => False
  | .read _, .ok _ => True
  | .read _, .error _ => False
  | .write _, .ok _ => True
  | .write _, .error _ => False
  | .index _, .ok _ => True
  | .index _, .error _ => False
  | .feedbackCache _, _ => True
  | .typeCache _, _ => True
  | .setsCache _, _ => True
  | .lock _, _ => True
  | .now, _ => True
  | .tick, _ => True
  | .drawId, _ => True

end Call

namespace Cache

variable {κ ν : Type} [Ord κ] [Std.TransOrd κ]

def Answers (cache : Cache κ ν) (call : CacheCall κ ν) (answer : call.Answer)
    (after : Cache κ ν) : Prop :=
  ∃ lost : List κ, (lost.foldl evict cache).answer call = (answer, after)

end Cache

namespace System

def MayAnswer (system : System) : (call : Call) → call.Answer → System → Prop
  | .host _, _, after => after = system
  | .read request, .ok answer, after => answer = system.store.read request ∧ after = system
  | .read _, .error _, after => after = system
  | .write request, answer, after =>
      (∃ disk, ∃ written store, system.store.write disk system.now request = (written, store) ∧
        answer = written.mapError .storage ∧ after = { system.read with store }) ∨
      ∃ error, answer = .error error ∧ after = system
  | .index call, .ok answer, after =>
      answer = (system.index.answer call).1 ∧
        after = { system with index := (system.index.answer call).2 }
  | .index _, .error _, after => after = system
  | .feedbackCache call, answer, after =>
      ∃ feedbackCache, system.feedbackCache.Answers call answer feedbackCache ∧
        after = { system with feedbackCache }
  | .typeCache call, answer, after =>
      ∃ typeCache, system.typeCache.Answers call answer typeCache ∧
        after = { system with typeCache }
  | .setsCache call, answer, after =>
      ∃ setsCache, system.setsCache.Answers call answer setsCache ∧
        after = { system with setsCache }
  | .lock call, answer, after => system.answer? (.lock call) = some (answer, after)
  | .now, answer, after => system.answer? .now = some (answer, after)
  | .tick, answer, after => system.answer? .tick = some (answer, after)
  | .drawId, answer, after => system.answer? .drawId = some (answer, after)

/-- The possible answers; calls fail only where `mayFail` says so. -/
def Answers (mayFail : Prop) : Answering System := fun system call answer after =>
  system.MayAnswer call answer after ∧ (call.Succeeds answer ∨ mayFail)

theorem mayAnswer_of_answer? {system after : System} {call : Call} {answer : call.Answer}
    (answered : system.answer? call = some (answer, after)) :
    system.MayAnswer call answer after := by
  cases call with
  | host call =>
      simp only [answer?, Option.some.injEq, Prod.mk.injEq] at answered
      exact answered.2.symm
  | read request =>
      simp only [answer?, Option.some.injEq, Prod.mk.injEq] at answered
      rw [← answered.1]
      exact ⟨rfl, answered.2.symm⟩
  | write request =>
      simp only [answer?, System.write, Option.some.injEq, Prod.mk.injEq] at answered
      exact .inl ⟨.sound, _, _, rfl, answered.1.symm, answered.2.symm⟩
  | index call =>
      simp only [answer?, Option.some.injEq, Prod.mk.injEq] at answered
      rw [← answered.1]
      exact ⟨rfl, answered.2.symm⟩
  | feedbackCache call =>
      simp only [answer?, Option.some.injEq, Prod.mk.injEq] at answered
      exact ⟨_, ⟨[], Prod.ext answered.1 rfl⟩, answered.2.symm⟩
  | typeCache call =>
      simp only [answer?, Option.some.injEq, Prod.mk.injEq] at answered
      exact ⟨_, ⟨[], Prod.ext answered.1 rfl⟩, answered.2.symm⟩
  | setsCache call =>
      simp only [answer?, Option.some.injEq, Prod.mk.injEq] at answered
      exact ⟨_, ⟨[], Prod.ext answered.1 rfl⟩, answered.2.symm⟩
  | lock call => exact answered
  | now => exact answered
  | tick => exact answered
  | drawId => exact answered

structure Fixes (system : System) (call : Call) (after : System) : Prop where
  store : (∀ request, call ≠ .write request) → after.store = system.store
  index : (∀ request, call ≠ .index request) → after.index = system.index
  feedbackCache : (∀ request, call ≠ .feedbackCache request) → after.feedbackCache = system.feedbackCache
  typeCache : (∀ request, call ≠ .typeCache request) → after.typeCache = system.typeCache
  setsCache : (∀ request, call ≠ .setsCache request) → after.setsCache = system.setsCache
  locks : (∀ request, call ≠ .lock request) → after.locks = system.locks
  clock : after.clock = system.clock
  ids : after.ids = system.ids
  host : after.host = system.host

theorem MayAnswer.fixes {system after : System} {call : Call} {answer : call.Answer}
    (possible : system.MayAnswer call answer after) : system.Fixes call after := by
  have unchanged : system.Fixes call system :=
    ⟨fun _ => rfl, fun _ => rfl, fun _ => rfl, fun _ => rfl, fun _ => rfl, fun _ => rfl, rfl, rfl, rfl⟩
  cases call with
  | host => exact possible ▸ unchanged
  | read request =>
      cases answer with
      | ok answer => exact possible.2 ▸ unchanged
      | error error => exact possible ▸ unchanged
  | write request =>
      obtain ⟨_, _, _, _, _, rfl⟩ | ⟨_, _, rfl⟩ := possible
      · exact { unchanged with store := fun other => absurd rfl (other request) }
      · exact unchanged
  | index request =>
      cases answer with
      | ok answer =>
          exact possible.2 ▸ { unchanged with index := fun other => absurd rfl (other request) }
      | error error => exact possible ▸ unchanged
  | feedbackCache request =>
      obtain ⟨_, _, rfl⟩ := possible
      exact { unchanged with feedbackCache := fun other => absurd rfl (other request) }
  | typeCache request =>
      obtain ⟨_, _, rfl⟩ := possible
      exact { unchanged with typeCache := fun other => absurd rfl (other request) }
  | setsCache request =>
      obtain ⟨_, _, rfl⟩ := possible
      exact { unchanged with setsCache := fun other => absurd rfl (other request) }
  | lock request =>
      simp only [MayAnswer, answer?, Option.map_eq_some_iff, Prod.mk.injEq] at possible
      obtain ⟨_, _, _, rfl⟩ := possible
      exact { unchanged with locks := fun other => absurd rfl (other request) }
  | now | tick | drawId =>
      simp only [MayAnswer, answer?, Option.some.injEq, Prod.mk.injEq] at possible
      exact possible.2 ▸ { unchanged with }

theorem host_run {α : Type} (program : Program α) (system : System) :
    (program.run answer? system).2.host = system.host := by
  induction program generalizing system with
  | done value => rfl
  | ask call next ih =>
      simp only [Program.run]
      split
      · rename_i answer after answered
        exact (ih answer after).trans (mayAnswer_of_answer? answered).fixes.host
      · rfl

theorem succeeds_of_memory {system after : System} {tables : Tables} {call : Call}
    {answer : call.Answer} (memory : system.store = .memory tables)
    (within : ∀ request, call ≠ .host request)
    (answered : system.answer? call = some (answer, after)) :
    call.Succeeds answer ∧ ∃ tables, after.store = .memory tables := by
  cases call with
  | host request => exact absurd rfl (within request)
  | read request =>
      simp only [answer?, Option.some.injEq, Prod.mk.injEq] at answered
      rw [← answered.1, ← answered.2]
      exact ⟨trivial, tables, memory⟩
  | write request =>
      simp only [answer?, System.write, memory, Store.write, Option.some.injEq,
        Prod.mk.injEq] at answered
      rw [← answered.1, ← answered.2]
      exact ⟨trivial, _, rfl⟩
  | index call =>
      simp only [answer?, Option.some.injEq, Prod.mk.injEq] at answered
      rw [← answered.1, ← answered.2]
      exact ⟨trivial, tables, memory⟩
  | lock call =>
      simp only [answer?, Option.map_eq_some_iff, Prod.mk.injEq] at answered
      obtain ⟨locks, _, _, rfl⟩ := answered
      exact ⟨trivial, tables, memory⟩
  | feedbackCache call | typeCache call | setsCache call | now | tick | drawId =>
      simp only [answer?, Option.some.injEq, Prod.mk.injEq] at answered
      rw [← answered.2]
      exact ⟨trivial, tables, memory⟩

/-- In memory all calls succeed, if those to the host do. -/
theorem succeeds_of_host {system after : System} {tables : Tables} {call : Call} {answer : call.Answer}
    (memory : system.store = .memory tables)
    (host : ∀ request, (Call.host request).Succeeds (system.host request))
    (answered : system.answer? call = some (answer, after)) :
    call.Succeeds answer ∧ ∃ tables, after.store = .memory tables := by
  by_cases asksHost : ∃ request, call = .host request
  · obtain ⟨request, rfl⟩ := asksHost
    simp only [answer?, Option.some.injEq, Prod.mk.injEq] at answered
    rw [← answered.1, ← answered.2]
    exact ⟨host request, tables, memory⟩
  · exact succeeds_of_memory memory (fun request same => asksHost ⟨request, same⟩) answered

end System

namespace Store

/-- A write that goes through does to the tables what it does in memory, except that a change without
rows leaves them alone. -/
theorem tables_of_write {store after : Store} {disk : Disk} {now : Instant} {request : Write}
    {written : Written} (wrote : store.write disk now request = (.ok written, after)) :
    after.tables = (store.tables.write request).2 ∨
      (store.tables.plan request).isEmpty ∧ after.tables = store.tables := by
  cases store with
  | memory tables =>
      simp only [Store.write, Prod.mk.injEq] at wrote
      rw [← wrote.2]
      exact .inl rfl
  | durable kept =>
      simp only [Store.write, DurableTables.write, Prod.mk.injEq] at wrote
      rw [← wrote.2]
      split
      · rename_i empty
        exact .inr ⟨empty, rfl⟩
      · split
        · rename_i refused
          simp [*] at wrote
        · exact .inl rfl

theorem tables_of_refused {store after : Store} {disk : Disk} {now : Instant} {request : Write}
    {error : StorageError} (refused : store.write disk now request = (.error error, after)) :
    after.tables = store.tables := by
  cases store with
  | memory tables => simp [Store.write] at refused
  | durable kept =>
      simp only [Store.write, DurableTables.write, Prod.mk.injEq] at refused
      rw [← refused.2]
      split
      · rfl
      · split
        · rfl
        · simp [*] at refused

/-- A write that goes through answers what it does in memory, and does that to the feedback. -/
theorem written_of_write {store after : Store} {disk : Disk} {now : Instant} {request : Write}
    {written : Written} (wrote : store.write disk now request = (.ok written, after)) :
    written = (store.tables.write request).1 ∧
      after.tables.feedback = (store.tables.write request).2.feedback := by
  cases store with
  | memory tables =>
      simp only [Store.write, Prod.mk.injEq, Except.ok.injEq] at wrote
      rw [← wrote.1, ← wrote.2]
      exact ⟨rfl, rfl⟩
  | durable kept =>
      simp only [Store.write, DurableTables.write, Prod.mk.injEq] at wrote
      obtain ⟨answer, rfl⟩ := wrote
      split at answer
      · rename_i empty
        simp only [Except.ok.injEq] at answer
        refine ⟨answer.symm, ?_⟩
        simp only [empty, if_true, tables, Tables.write]
        cases planned : kept.tables.plan request with
        | removeFeedback pairs =>
            rw [planned] at empty
            rw [List.isEmpty_iff.mp empty]
            rfl
        | upsertFeedback row => simp [planned, Change.isEmpty] at empty
        | _ => rfl
      · rename_i filled
        simp only [filled, Bool.false_eq_true, if_false, tables]
        split at answer
        · simp at answer
        · simp only [Except.ok.injEq] at answer
          exact ⟨answer.symm, rfl⟩

end Store

namespace System

variable {system after : System}

theorem MayAnswer.written {request : Write} {written : Written}
    (possible : system.MayAnswer (.write request) (.ok written) after) :
    ∃ disk store, system.store.write disk system.now request = (.ok written, store) ∧
      after = { system.read with store } := by
  rcases possible with ⟨disk, result, store, wrote, answered, rfl⟩ | ⟨_, refused, _⟩
  · cases result with
    | ok given =>
        obtain rfl := Except.ok.inj answered
        exact ⟨disk, store, wrote, rfl⟩
    | error error => cases answered
  · cases refused

theorem MayAnswer.refused {request : Write} {error : LinkError}
    (possible : system.MayAnswer (.write request) (.error error) after) :
    after.store.tables = system.store.tables ∧ after.lastTick = system.lastTick := by
  rcases possible with ⟨disk, result, store, wrote, answered, rfl⟩ | ⟨_, _, rfl⟩
  · cases result with
    | ok written => cases answered
    | error error => exact ⟨Store.tables_of_refused wrote, rfl⟩
  · exact ⟨rfl, rfl⟩

/-- A call leaves the tables alone unless it is a write that goes through. -/
theorem MayAnswer.tables {call : Call} {answer : call.Answer} (possible : system.MayAnswer call answer after) :
    after.store.tables = system.store.tables ∨
      ∃ request, call = .write request ∧ after.store.tables = (system.store.tables.write request).2 := by
  cases call with
  | write request =>
      cases answer with
      | error error => exact .inl possible.refused.1
      | ok written =>
          obtain ⟨disk, store, wrote, rfl⟩ := possible.written
          rcases Store.tables_of_write wrote with same | ⟨_, same⟩
          · exact .inr ⟨request, rfl, same⟩
          · exact .inl same
  | _ => exact .inl (congrArg Store.tables (possible.fixes.store (by simp)))

end System

end RecordLinkage
