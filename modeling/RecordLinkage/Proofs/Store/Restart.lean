import RecordLinkage.Store
import RecordLinkage.Proofs.Journal.Recovery
import RecordLinkage.Proofs.Store.Changes

/-! Tables behind a journal answer as tables in memory do, however often the journal is closed and opened
again in between. -/

namespace RecordLinkage

namespace LogTable

def Filled (table : LogTable) : Prop := ∀ cluster : Id, table.rows[cluster]? ≠ some []

theorem filled_empty : empty.Filled := by
  intro cluster
  simp [empty]

theorem filled_append {table : LogTable} (filled : table.Filled) (entries : List LogEntry) :
    (table.append entries).Filled := by
  unfold append
  induction entries generalizing table with
  | nil => exact filled
  | cons entry entries ih =>
      refine ih fun cluster => ?_
      rw [Std.ExtTreeMap.getElem?_insert]
      split
      · simp
      · exact filled cluster

theorem filled_remove {table : LogTable} (filled : table.Filled) (cluster : Id)
    (planned : List LogEntry) : (table.remove cluster planned).2.Filled := by
  intro other
  unfold remove
  simp only
  split
  · rw [Std.ExtTreeMap.getElem?_erase]
    split
    · simp
    · exact filled other
  · rename_i rest
    rw [Std.ExtTreeMap.getElem?_insert]
    split
    · intro none
      exact rest (List.isEmpty_iff.mpr (Option.some.inj none))
    · exact filled other

theorem remove_nil {table : LogTable} (filled : table.Filled) (cluster : Id) :
    table.remove cluster [] = (0, table) := by
  have all : (table.entriesFor cluster).filter (fun entry => !([] : List LogEntry).contains entry) =
      table.entriesFor cluster := List.filter_eq_self.mpr (by simp)
  have same : (if (table.entriesFor cluster).isEmpty then table.rows.erase cluster
      else table.rows.insert cluster (table.entriesFor cluster)) = table.rows := by
    apply Std.ExtTreeMap.ext_getElem?
    intro other
    cases found : table.rows[cluster]? with
    | none =>
        rw [if_pos (by simp [entriesFor, Std.ExtTreeMap.getD_eq_getD_getElem?, found]),
          Std.ExtTreeMap.getElem?_erase]
        split
        · rename_i equal
          rw [← Std.LawfulEqOrd.eq_of_compare equal, found]
        · rfl
    | some rows =>
        have own : table.entriesFor cluster = rows := by
          simp [entriesFor, Std.ExtTreeMap.getD_eq_getD_getElem?, found]
        have some : ¬rows.isEmpty := fun none =>
          filled cluster (by rw [found, List.isEmpty_iff.mp none])
        rw [own, if_neg some, Std.ExtTreeMap.getElem?_insert]
        split
        · rename_i equal
          rw [← Std.LawfulEqOrd.eq_of_compare equal, found]
        · rfl
  simp only [remove, all, same, Nat.sub_self]

end LogTable

namespace Tables

theorem filled_apply {tables : Tables} (filled : tables.log.Filled) (change : Change) :
    (tables.apply change).2.log.Filled := by
  cases change with
  | appendEntries entries => exact LogTable.filled_append filled entries
  | removeEntries cluster entries => exact LogTable.filled_remove filled cluster entries
  | upsertEdges | removeEdges | upsertFeedback | removeFeedback => exact filled

/-- Only in the membership log could a change without rows leave a trace. -/
theorem apply_empty {tables : Tables} (filled : tables.log.Filled) {change : Change}
    (empty : change.isEmpty) : (tables.apply change).2 = tables := by
  cases change with
  | upsertFeedback row => contradiction
  | removeEntries cluster entries =>
      obtain rfl := List.isEmpty_iff.mp empty
      simp [apply, LogTable.remove_nil filled]
  | upsertEdges edges writtenAt =>
      obtain rfl := List.isEmpty_iff.mp empty
      rfl
  | removeEdges edges =>
      obtain rfl := List.isEmpty_iff.mp empty
      rfl
  | removeFeedback pairs =>
      obtain rfl := List.isEmpty_iff.mp empty
      rfl
  | appendEntries entries =>
      obtain rfl := List.isEmpty_iff.mp empty
      rfl

theorem replay_append (tables : Tables) (changes : List Change) (change : Change) :
    tables.replay (changes ++ [change]) = ((tables.replay changes).apply change).2 := by
  rw [replay, List.foldl_append]
  rfl

end Tables

inductive StoreEvent where
  | read (request : Read)
  | write (request : Write) (now : Instant)
  | reopen (syncs : Bool)

inductive StoreOutcome where
  | answered (request : Read) (answer : request.Answer)
  | written (outcome : Except StorageError Written)
  | reopened

namespace Store

def reopen (store : Store) (syncs : Bool) : Except LinkError Store :=
  match store with
  | memory tables => .ok (memory tables)
  | durable kept => (DurableTables.openAt (.file kept.journal.close) syncs).2.map durable

def undergo (store : Store) : StoreEvent → Except LinkError (StoreOutcome × Store)
  | .read request => .ok (.answered request (store.read request), store)
  | .write request now =>
      let (outcome, store) := store.write .sound now request
      .ok (.written outcome, store)
  | .reopen syncs => (store.reopen syncs).map fun store => (.reopened, store)

def run (store : Store) : List StoreEvent → Except LinkError (List StoreOutcome × Store)
  | [] => .ok ([], store)
  | event :: events => do
      let (outcome, store) ← store.undergo event
      let (outcomes, store) ← store.run events
      return (outcome :: outcomes, store)

end Store

namespace Tables

def after (tables : Tables) : StoreEvent → Tables
  | .write request _ => (tables.write request).2
  | _ => tables

def entries (tables : Tables) (count : Nat) : List StoreEvent → List JournalEntry
  | [] => []
  | .write request now :: events =>
      let change := tables.plan request
      let later := (tables.apply change).2
      if change.isEmpty then later.entries count events
      else ⟨.ofNat (count + 1), now, change⟩ :: later.entries (count + 1) events
  | _ :: events => tables.entries count events

theorem entries_cons (tables : Tables) (count : Nat) (event : StoreEvent) (events : List StoreEvent) :
    tables.entries count (event :: events) = tables.entries count [event] ++
      (tables.after event).entries (count + (tables.entries count [event]).length) events := by
  cases event with
  | read | reopen => rfl
  | write request now =>
      simp only [entries, after, Tables.write]
      split <;> rfl

end Tables

namespace DurableTables

structure Holds (durable : DurableTables) (entries : List JournalEntry) : Prop where
  journal : durable.journal.Holds entries
  tables : durable.tables = Tables.empty.replay (entries.map JournalEntry.change)
  filled : durable.tables.log.Filled

theorem holds_nil (syncs : Bool) : Holds ⟨.empty, ⟨Journal.header, [], 0, syncs⟩⟩ [] :=
  ⟨Journal.holds_nil syncs, rfl, LogTable.filled_empty⟩

theorem openAt_vacant (syncs : Bool) : (DurableTables.openAt .vacant syncs).2 =
    .ok ⟨.empty, ⟨Journal.header, [], 0, syncs⟩⟩ := by
  simp only [DurableTables.openAt, Journal.openAt, (Journal.holds_nil syncs).frames_file]
  rfl

theorem Holds.reopen {durable : DurableTables} {entries : List JournalEntry}
    (holds : durable.Holds entries) (syncs : Bool) :
    ∃ after, DurableTables.openAt (.file durable.journal.close) syncs =
        (.file after.journal.file, .ok after) ∧
      after.tables = durable.tables ∧ after.Holds entries := by
  obtain ⟨journal, opened, held⟩ := holds.journal.reopen_whole syncs
  refine ⟨⟨durable.tables, journal⟩, ?_, rfl, held, holds.tables, holds.filled⟩
  rw [DurableTables.openAt, opened]
  simp only [held.frames_file, ← holds.tables]

theorem Holds.write {durable : DurableTables} {entries : List JournalEntry}
    (holds : durable.Holds entries) {request : Write} {now : Instant}
    (rows : (durable.tables.plan request).isEmpty = false)
    (readable : JournalEntry.Readable
      ⟨.ofNat (entries.length + 1), now, durable.tables.plan request⟩) :
    ∃ after, durable.write .sound now request = (.ok (durable.tables.write request).1, after) ∧
      after.tables = (durable.tables.write request).2 ∧
      after.Holds (entries ++ [⟨.ofNat (entries.length + 1), now, durable.tables.plan request⟩]) := by
  obtain ⟨journal, appended, held⟩ := holds.journal.append readable
  refine ⟨⟨(durable.tables.write request).2, journal⟩, ?_, rfl, held, ?_, ?_⟩
  · simp [DurableTables.write, rows, appended, Tables.write]
  · rw [List.map_append, List.map_singleton, Tables.replay_append, ← holds.tables]
    rfl
  · exact Tables.filled_apply holds.filled _

theorem Holds.write_empty {durable : DurableTables} {entries : List JournalEntry}
    (holds : durable.Holds entries) {request : Write} (now : Instant)
    (empty : (durable.tables.plan request).isEmpty) :
    durable.write .sound now request = (.ok (durable.tables.write request).1, durable) ∧
      (durable.tables.write request).2 = durable.tables := by
  refine ⟨?_, Tables.apply_empty holds.filled empty⟩
  simp [DurableTables.write, empty, Tables.write]

end DurableTables

theorem DurableTables.Holds.undergo {durable : DurableTables} {entries : List JournalEntry}
    (holds : durable.Holds entries) {event : StoreEvent} {added : List JournalEntry}
    (same : durable.tables.entries entries.length [event] = added)
    (readable : ∀ entry ∈ added, entry.Readable) :
    ∃ outcome after, (Store.durable durable).undergo event = .ok (outcome, .durable after) ∧
      (Store.memory durable.tables).undergo event = .ok (outcome, .memory after.tables) ∧
      after.tables = durable.tables.after event ∧ after.Holds (entries ++ added) := by
  subst added
  cases event with
  | read request =>
      exact ⟨_, durable, rfl, rfl, rfl, by simpa [Tables.entries] using holds⟩
  | write request now =>
      cases rows : (durable.tables.plan request).isEmpty with
      | true =>
          obtain ⟨written, kept⟩ := holds.write_empty now rows
          refine ⟨.written (.ok (durable.tables.write request).1), durable, ?_, ?_, kept.symm, ?_⟩
          · simp [Store.undergo, Store.write, written]
          · simp [Store.undergo, Store.write, kept]
          · simpa [Tables.entries, rows] using holds
      | false =>
          simp only [Tables.entries, rows] at readable ⊢
          obtain ⟨after, written, applied, held⟩ := holds.write rows (readable _ (.head _))
          refine ⟨.written (.ok (durable.tables.write request).1), after, ?_, ?_, applied, held⟩
          · simp [Store.undergo, Store.write, written]
          · simp [Store.undergo, Store.write, applied]
  | reopen syncs =>
      obtain ⟨after, opened, kept, held⟩ := holds.reopen syncs
      refine ⟨.reopened, after, ?_, ?_, kept, ?_⟩
      · simp [Store.undergo, Store.reopen, opened, Except.map]
      · simp [Store.undergo, Store.reopen, Except.map, kept]
      · simpa [Tables.entries] using held

theorem DurableTables.Holds.run {durable : DurableTables} {entries : List JournalEntry}
    (holds : durable.Holds entries) {events : List StoreEvent}
    (readable : ∀ entry ∈ durable.tables.entries entries.length events, entry.Readable) :
    ∃ outcomes after, (Store.durable durable).run events = .ok (outcomes, .durable after) ∧
      (Store.memory durable.tables).run events = .ok (outcomes, .memory after.tables) ∧
      after.Holds (entries ++ durable.tables.entries entries.length events) := by
  induction events generalizing durable entries with
  | nil => exact ⟨[], durable, rfl, rfl, by simpa [Tables.entries] using holds⟩
  | cons event events ih =>
      rw [Tables.entries_cons] at readable ⊢
      obtain ⟨added, same⟩ : ∃ added, durable.tables.entries entries.length [event] = added :=
        ⟨_, rfl⟩
      rw [same] at readable ⊢
      obtain ⟨outcome, next, kept, plain, applied, held⟩ := holds.undergo same fun entry listed =>
        readable entry (List.mem_append_left _ listed)
      rw [← List.length_append, ← applied] at readable ⊢
      obtain ⟨outcomes, after, keptRest, plainRest, last⟩ :=
        ih held fun entry listed => readable entry (List.mem_append_right _ listed)
      refine ⟨outcome :: outcomes, after, ?_, ?_, ?_⟩
      · rw [Store.run, kept]
        show ((Store.durable next).run events).bind _ = _
        rw [keptRest]
        rfl
      · rw [Store.run, plain]
        show ((Store.memory next.tables).run events).bind _ = _
        rw [plainRest]
        rfl
      · rwa [List.append_assoc] at last

/-- Tables behind a journal answer every question and every write as tables in memory do, whatever is
closed and opened again in between; each opening succeeds, and the journal has numbered the writes
that came to a change with rows. -/
theorem durable_refines_memory (syncs : Bool) (events : List StoreEvent)
    (lengths : ∀ entry ∈ Tables.empty.entries 0 events, (Form.write entry).length ≤ maxFrameLength)
    (scores : ∀ entry ∈ Tables.empty.entries 0 events, entry.change.ScoresReadBack) :
    ∃ start outcomes after, (DurableTables.openAt .vacant syncs).2 = .ok start ∧
      (Store.durable start).run events = .ok (outcomes, .durable after) ∧
      Store.empty.run events = .ok (outcomes, .memory after.tables) ∧
      after.journal.sequence = .ofNat (Tables.empty.entries 0 events).length := by
  obtain ⟨outcomes, after, kept, plain, held⟩ := (DurableTables.holds_nil syncs).run
    fun entry listed => JournalEntry.readable (lengths entry listed) (scores entry listed)
  exact ⟨_, outcomes, after, DurableTables.openAt_vacant syncs, kept, plain, held.journal.sequence⟩

def rewrittenEdge : List StoreEvent :=
  let link : Link := ⟨⟨.ofNat 1, .ofNat 2⟩, ⟨.ofNat 1, .ofNat 3⟩⟩
  let edges : List ScoredEdge := [⟨⟨.ofNat 4, link⟩, .one⟩]
  [.write (.upsertEdges edges .epoch) .epoch, .reopen true, .write (.deleteEdge link) .epoch,
    .write (.deleteEdge link) .epoch, .write (.upsertEdges edges .epoch) .epoch, .reopen false,
    .read .allEdges]

theorem durable_refines_rewritten :
    (∀ entry ∈ Tables.empty.entries 0 rewrittenEdge,
      (Form.write entry).length ≤ maxFrameLength ∧ entry.change.ScoresReadBack) ∧
    ∃ start outcomes after, (DurableTables.openAt .vacant true).2 = .ok start ∧
      (Store.durable start).run rewrittenEdge = .ok (outcomes, .durable after) ∧
      Store.empty.run rewrittenEdge = .ok (outcomes, .memory after.tables) ∧
      after.journal.sequence = 3 := by
  have lengths : ∀ entry ∈ Tables.empty.entries 0 rewrittenEdge,
      (Form.write entry).length ≤ maxFrameLength := by
    decide +kernel
  have scores : ∀ entry ∈ Tables.empty.entries 0 rewrittenEdge, entry.change.ScoresReadBack := by
    decide +kernel
  have count : (Tables.empty.entries 0 rewrittenEdge).length = 3 := by decide +kernel
  obtain ⟨start, outcomes, after, opened, kept, plain, numbered⟩ :=
    durable_refines_memory true rewrittenEdge lengths scores
  rw [count] at numbered
  exact ⟨fun entry listed => ⟨lengths entry listed, scores entry listed⟩, start, outcomes, after,
    opened, kept, plain, numbered⟩

end RecordLinkage
