import RecordLinkage.Proofs.Store.Accepted
import RecordLinkage.Proofs.Store.Restart

/-! Writes that the disk refuses. What a refused write has left of its frame, in the file or in the buffer,
stays in front of all later frames: a frame that is whole is read when the journal is opened again,
and one that is not takes with it what is behind it. -/

namespace RecordLinkage

namespace Journal

def bytes (journal : Journal) : List UInt8 := journal.file ++ journal.buffer

theorem close_eq (journal : Journal) : journal.close = journal.bytes := by
  simp [close, flush, writeThrough, bytes]

theorem bytes_writeThrough (journal : Journal) (room : Room) (frame : List UInt8)
    (empty : journal.buffer = []) :
    (journal.writeThrough room frame).2.2.bytes =
      journal.bytes ++ frame.take (journal.writeThrough room frame).1 := by
  simp [writeThrough, bytes, empty]

theorem bytes_flush (journal : Journal) (room : Room) :
    (journal.flush room).2.2.bytes = journal.bytes := by
  simp [flush, writeThrough, bytes, List.append_assoc]

section Push

variable (journal : Journal) (room : Room) (frame : List UInt8)

theorem buffer_ready (large : bufferSize ≤ frame.length)
    (ready : (if bufferSize - journal.buffer.length < frame.length then journal.flush room
      else (true, room, journal)).1) :
    (if bufferSize - journal.buffer.length < frame.length then journal.flush room
      else (true, room, journal)).2.2.buffer = [] := by
  split
  · -- What does not fit beside what the buffer holds is pushed behind a flush.
    rename_i spills
    rw [if_pos spills] at ready
    exact congrArg Journal.buffer (flush_ok (Prod.ext ready rfl))
  · refine List.eq_nil_of_length_eq_zero ?_
    have : 0 < bufferSize := by decide
    show journal.buffer.length = 0
    omega

/-- Of a frame some first bytes are added, all of them when it was pushed; of one shorter than the buffer
there is all or nothing. -/
theorem bytes_push : ∃ left, left <+: frame ∧
    (journal.push room frame).2.2.bytes = journal.bytes ++ left ∧
    ((journal.push room frame).1 → left = frame) ∧
    (frame.length < bufferSize → left = [] ∨ left = frame) := by
  have emptied := buffer_ready journal room frame
  have kept : (if bufferSize - journal.buffer.length < frame.length then journal.flush room
      else (true, room, journal)).2.2.bytes = journal.bytes := by
    split
    · exact bytes_flush journal room
    · rfl
  rcases made : (if bufferSize - journal.buffer.length < frame.length then journal.flush room
    else (true, room, journal)) with ⟨ready, rest, middle⟩
  rw [made] at emptied kept
  simp only [push, made]
  cases ready with
  | false => exact ⟨[], List.nil_prefix, by simpa using kept, by simp, fun _ => .inl rfl⟩
  | true =>
      simp only [Bool.not_true, Bool.false_eq_true, if_false]
      split
      · refine ⟨frame, List.prefix_rfl, ?_, fun _ => rfl, fun _ => .inr rfl⟩
        rw [← kept]
        simp [bytes]
      · rename_i large
        refine ⟨frame.take (middle.writeThrough rest frame).1, List.take_prefix _ _, ?_,
          fun all => ?_, fun short => absurd short large⟩
        · rw [← kept]
          exact bytes_writeThrough middle rest frame (emptied (Nat.le_of_not_lt large) rfl)
        · exact List.take_of_length_le (Nat.le_of_eq (of_decide_eq_true all).symm)

theorem bytes_push_short (empty : journal.buffer = []) (short : frame.length < bufferSize) :
    (journal.push room frame).2.2.bytes = journal.bytes ++ frame := by
  have fits : ¬bufferSize - journal.buffer.length < frame.length := by
    rw [empty, List.length_nil]
    omega
  simp [push, fits, short, bytes]

end Push

theorem append_of_push (journal : Journal) (disk : Disk) (now : Instant) (change : Change)
    {frame : List UInt8}
    (encoded : Frame.encode? ⟨journal.sequence + 1, now, change⟩ = some frame) :
    ∃ room, (journal.append disk now change).2.bytes = (journal.push room frame).2.2.bytes ∧
      ((journal.append disk now change).1.isOk → (journal.push room frame).1) := by
  cases disk
  case' full room => refine ⟨some room, ?_⟩
  case' sound => refine ⟨none, ?_⟩
  case' unsynced => refine ⟨none, ?_⟩
  all_goals
    simp only [append, encoded]
    split
    · exact ⟨rfl, by rintro ⟨⟩⟩
    · rename_i pushed
      refine ⟨?_, fun _ => by simpa using pushed⟩
      split
      · exact bytes_flush _ _
      · first
        | exact bytes_flush _ _
        | split <;> exact bytes_flush _ _

theorem bytes_append (journal : Journal) (disk : Disk) (now : Instant) (change : Change)
    {frame : List UInt8}
    (encoded : Frame.encode? ⟨journal.sequence + 1, now, change⟩ = some frame) :
    ∃ left, left <+: frame ∧
      (journal.append disk now change).2.bytes = journal.bytes ++ left ∧
      ((journal.append disk now change).1.isOk → left = frame) ∧
      (frame.length < bufferSize → left = [] ∨ left = frame) := by
  obtain ⟨room, same, accepted⟩ := append_of_push journal disk now change encoded
  obtain ⟨left, front, pushed, all, short⟩ := bytes_push journal room frame
  exact ⟨left, front, same.trans pushed, fun ok => all (accepted ok), short⟩

structure Appended where
  entry : JournalEntry
  accepted : Bool
  left : List UInt8

namespace Appended

def IsWhole (appended : Appended) : Prop := appended.left = Frame.of appended.entry

instance (appended : Appended) : Decidable appended.IsWhole :=
  inferInstanceAs (Decidable (_ = _))

def IsTorn (appended : Appended) : Prop := appended.left ≠ [] ∧ ¬appended.IsWhole

instance (appended : Appended) : Decidable appended.IsTorn :=
  inferInstanceAs (Decidable (_ ∧ _))

structure Fair (appended : Appended) : Prop where
  front : appended.left <+: Frame.of appended.entry
  whole : appended.accepted → appended.IsWhole
  short : (Frame.of appended.entry).length < bufferSize → ¬appended.IsTorn

theorem of_ne_nil (entry : JournalEntry) : Frame.of entry ≠ [] := by
  simp [Frame.of, Frame.ofPayload]

end Appended

def standing (appends : List Appended) : List JournalEntry :=
  (appends.filter fun appended => appended.IsWhole).map Appended.entry

def acknowledged (appends : List Appended) : List JournalEntry :=
  (appends.filter Appended.accepted).map Appended.entry

def Unbroken (appends : List Appended) : Prop :=
  appends.Pairwise fun earlier later => earlier.IsTorn → later.left = []

instance (appends : List Appended) : Decidable (Unbroken appends) :=
  inferInstanceAs (Decidable (List.Pairwise _ _))

section Appends

variable {appends : List Appended} (fair : ∀ appended ∈ appends, appended.Fair)

include fair

theorem filter_accepted : appends.filter Appended.accepted =
    (appends.filter fun appended => appended.IsWhole).filter Appended.accepted := by
  rw [List.filter_filter]
  refine List.filter_congr fun appended listed => ?_
  have whole := (fair appended listed).whole
  cases accepted : appended.accepted with
  | false => rfl
  | true => simp [whole accepted]

theorem acknowledged_sublist : (acknowledged appends).Sublist (standing appends) := by
  rw [acknowledged, filter_accepted fair]
  exact List.filter_sublist.map _

theorem standing_eq_iff : standing appends = acknowledged appends ↔
    ∀ appended ∈ appends, appended.IsWhole → appended.accepted := by
  have all : (∀ appended ∈ appends, appended.IsWhole → appended.accepted) ↔
      ∀ appended ∈ appends.filter fun appended => appended.IsWhole, appended.accepted := by
    simp only [List.mem_filter, decide_eq_true_eq, and_imp]
  rw [all, acknowledged, filter_accepted fair]
  constructor
  · intro same
    have length := congrArg List.length same
    simp only [standing, List.length_map] at length
    exact List.length_filter_eq_length_iff.mp length.symm
  · intro accepted
    rw [List.filter_eq_self.mpr accepted, standing]

/-- What unbroken appends have left: the frames that are whole, and perhaps the front of another one. -/
theorem left_eq (readable : ∀ appended ∈ appends, appended.entry.Readable)
    (unbroken : Unbroken appends) :
    ∃ tail, appends.flatMap Appended.left = framesOf (standing appends) ++ tail ∧
      (tail = [] ∨ scan tail = ⟨[], 0, .cut⟩ ∧ ∃ appended ∈ appends, appended.IsTorn) := by
  induction appends with
  | nil => exact ⟨[], rfl, .inl rfl⟩
  | cons appended appends ih =>
      obtain ⟨behind, unbroken⟩ := List.pairwise_cons.mp unbroken
      obtain ⟨tail, same, torn⟩ := ih (fun other listed => fair other (.tail _ listed))
        (fun other listed => readable other (.tail _ listed)) unbroken
      have torn : tail = [] ∨
          scan tail = ⟨[], 0, .cut⟩ ∧ ∃ other ∈ appended :: appends, other.IsTorn :=
        torn.imp_right fun ⟨cut, other, listed, isTorn⟩ => ⟨cut, other, .tail _ listed, isTorn⟩
      have front := (fair appended (.head _)).front
      rw [List.flatMap_cons]
      by_cases whole : appended.IsWhole
      · refine ⟨tail, ?_, torn⟩
        have first : standing (appended :: appends) = appended.entry :: standing appends := by
          simp [standing, whole]
        rw [first, same, whole, framesOf, framesOf, List.flatMap_cons, List.append_assoc]
      · have none : standing (appended :: appends) = standing appends := by
          simp [standing, whole]
        rw [none]
        by_cases nothing : appended.left = []
        · exact ⟨tail, by rw [nothing, same, List.nil_append], torn⟩
        · -- Behind a torn frame nothing was left.
          have vacant : ∀ later ∈ appends, later.left = [] := fun later listed =>
            behind later listed ⟨nothing, whole⟩
          have last : appends.flatMap Appended.left = [] :=
            List.flatMap_eq_nil_iff.mpr vacant
          have alone : standing appends = [] := by
            simp only [standing, List.map_eq_nil_iff, List.filter_eq_nil_iff, decide_eq_true_eq]
            intro later listed whole
            exact Appended.of_ne_nil _ (whole.symm.trans (vacant later listed))
          refine ⟨appended.left, by rw [last, alone]; simp [framesOf],
            .inr ⟨?_, appended, .head _, nothing, whole⟩⟩
          rw [List.prefix_iff_eq_take.mp front]
          refine scan_torn (readable appended (.head _)).length ?_ ?_
          · exact List.length_pos_iff.mpr nothing
          · exact Nat.lt_of_le_of_ne front.length_le fun equal =>
              whole (front.eq_of_length equal)

end Appends

end Journal

structure WriteAttempt where
  disk : Disk
  now : Instant
  request : Write

namespace DurableTables

open Journal (Appended standing acknowledged framesOf)

def attempt (durable : DurableTables) (tried : WriteAttempt) : DurableTables :=
  (durable.write tried.disk tried.now tried.request).2

def appended? (durable : DurableTables) (tried : WriteAttempt) : Option Appended :=
  let change := durable.tables.plan tried.request
  if change.isEmpty then none
  else some {
    entry := ⟨durable.journal.sequence + 1, tried.now, change⟩
    accepted := (durable.write tried.disk tried.now tried.request).1.isOk
    left := (durable.attempt tried).journal.bytes.drop durable.journal.bytes.length }

def appends (durable : DurableTables) : List WriteAttempt → List Appended
  | [] => []
  | tried :: rest => (durable.appended? tried).toList ++ (durable.attempt tried).appends rest

structure Stands (durable : DurableTables) (entries : List JournalEntry) : Prop where
  file : durable.journal.file = Journal.header ++ framesOf entries
  buffer : durable.journal.buffer = []
  readable : ∀ entry ∈ entries, entry.Readable
  tables : durable.tables = Tables.empty.replay (entries.map JournalEntry.change)

theorem Holds.stands {durable : DurableTables} {entries : List JournalEntry}
    (holds : durable.Holds entries) : durable.Stands entries :=
  ⟨holds.journal.file, holds.journal.buffer, holds.journal.readable, holds.tables⟩

theorem Stands.bytes {durable : DurableTables} {entries : List JournalEntry}
    (stands : durable.Stands entries) :
    durable.journal.bytes = Journal.header ++ framesOf entries := by
  rw [Journal.bytes, stands.file, stands.buffer, List.append_nil]

section Attempt

variable (durable : DurableTables) (tried : WriteAttempt)

theorem attempt_empty (empty : (durable.tables.plan tried.request).isEmpty) :
    durable.attempt tried = durable := by
  rw [attempt, write, if_pos empty]

theorem write_filled (filled : ¬(durable.tables.plan tried.request).isEmpty) :
    let put := durable.journal.append tried.disk tried.now (durable.tables.plan tried.request)
    (durable.attempt tried).journal = put.2 ∧
      (durable.write tried.disk tried.now tried.request).1.isOk = put.1.isOk ∧
      (durable.attempt tried).tables =
        if put.1.isOk then (durable.tables.apply (durable.tables.plan tried.request)).2
        else durable.tables := by
  intro put
  rcases made : put with ⟨outcome, journal⟩
  rw [attempt, write, if_neg filled]
  simp only [show durable.journal.append _ _ _ = put from rfl, made]
  cases outcome <;> exact ⟨rfl, rfl, rfl⟩

theorem bytes_attempt (readable : ∀ appended ∈ durable.appended? tried, appended.entry.Readable) :
    (durable.attempt tried).journal.bytes =
        durable.journal.bytes ++ (durable.appended? tried).toList.flatMap Appended.left ∧
      ∀ appended ∈ durable.appended? tried, appended.Fair := by
  by_cases empty : (durable.tables.plan tried.request).isEmpty
  · simp [appended?, empty, attempt_empty durable tried empty]
  · obtain ⟨journal, outcome, -⟩ := write_filled durable tried empty
    simp only [appended?, empty, if_false, Bool.false_eq_true, Option.mem_def, Option.some.injEq,
      forall_eq', Option.toList_some, List.flatMap_cons, List.flatMap_nil, List.append_nil] at readable ⊢
    obtain ⟨left, front, bytes, whole, short⟩ := Journal.bytes_append durable.journal tried.disk
      tried.now (durable.tables.plan tried.request) (Frame.encode?_eq readable)
    rw [outcome, journal, bytes, List.drop_left]
    refine ⟨rfl, front, whole, fun fits torn => ?_⟩
    rcases short fits with none | all
    · exact torn.1 none
    · exact torn.2 all

theorem isWhole_of_short (empty : durable.journal.buffer = []) {appended : Appended}
    (listed : appended ∈ durable.appended? tried) (readable : appended.entry.Readable)
    (short : (Frame.of appended.entry).length < Journal.bufferSize) : appended.IsWhole := by
  by_cases vacant : (durable.tables.plan tried.request).isEmpty
  · simp [appended?, vacant] at listed
  · obtain ⟨journal, -⟩ := write_filled durable tried vacant
    simp only [appended?, vacant, if_false, Bool.false_eq_true, Option.mem_def, Option.some.injEq]
      at listed
    subst listed
    obtain ⟨room, pushed, -⟩ := Journal.append_of_push durable.journal tried.disk tried.now
      (durable.tables.plan tried.request) (Frame.encode?_eq readable)
    show (durable.attempt tried).journal.bytes.drop _ = _
    rw [journal, pushed, Journal.bytes_push_short _ _ _ empty short, List.drop_left]

theorem tables_attempt : (durable.attempt tried).tables =
    durable.tables.replay ((acknowledged (durable.appended? tried).toList).map JournalEntry.change) := by
  by_cases empty : (durable.tables.plan tried.request).isEmpty
  · simp [appended?, empty, attempt_empty durable tried empty, acknowledged, Tables.replay]
  · obtain ⟨-, outcome, tables⟩ := write_filled durable tried empty
    rw [tables, ← outcome]
    simp only [appended?, empty, if_false, Bool.false_eq_true, Option.toList_some, acknowledged,
      List.filter_cons, List.filter_nil]
    split <;> rfl

end Attempt

section Attempts

variable {durable : DurableTables} {attempts : List WriteAttempt}

theorem bytes_attempts
    (readable : ∀ appended ∈ durable.appends attempts, appended.entry.Readable) :
    (attempts.foldl attempt durable).journal.bytes =
        durable.journal.bytes ++ (durable.appends attempts).flatMap Appended.left ∧
      ∀ appended ∈ durable.appends attempts, appended.Fair := by
  induction attempts generalizing durable with
  | nil => exact ⟨by simp [appends], by simp [appends]⟩
  | cons tried rest ih =>
      simp only [appends, List.mem_append, Option.mem_toList] at readable ⊢
      obtain ⟨first, fair⟩ := bytes_attempt durable tried fun appended listed =>
        readable appended (.inl listed)
      obtain ⟨later, fairs⟩ := ih fun appended listed => readable appended (.inr listed)
      refine ⟨?_, fun appended listed => listed.elim (fair appended) (fairs appended)⟩
      rw [List.foldl_cons, later, first, List.flatMap_append, List.append_assoc]

theorem tables_attempts : (attempts.foldl attempt durable).tables =
    durable.tables.replay ((acknowledged (durable.appends attempts)).map JournalEntry.change) := by
  induction attempts generalizing durable with
  | nil => rfl
  | cons tried rest ih =>
      rw [List.foldl_cons, ih, tables_attempt]
      simp only [appends, acknowledged, List.filter_append, List.map_append, Tables.replay,
        List.foldl_append]

end Attempts

section Reopening

variable {durable : DurableTables} {entries : List JournalEntry}

theorem stands_of_torn {bytes tail : List UInt8} (readable : ∀ entry ∈ entries, entry.Readable)
    (same : bytes = Journal.header ++ (framesOf entries ++ tail))
    (torn : tail = [] ∨ Journal.scan tail = ⟨[], 0, .cut⟩) (syncs : Bool) :
    ∃ reopened, DurableTables.openAt (.file bytes) syncs =
        (.file reopened.journal.file, .ok reopened) ∧ reopened.Stands entries := by
  refine ⟨⟨Tables.empty.replay (entries.map JournalEntry.change),
    ⟨_, [], Journal.lastSequence entries, syncs⟩⟩, ?_, rfl, rfl, readable, rfl⟩
  simp only [DurableTables.openAt, same, Journal.openAt_torn readable torn,
    Journal.frames_whole readable]

theorem readable_standing {appends : List Appended}
    (readable : ∀ appended ∈ appends, appended.entry.Readable) :
    ∀ entry ∈ standing appends, entry.Readable := by
  intro entry listed
  obtain ⟨appended, member, rfl⟩ := List.mem_map.mp listed
  exact readable appended (List.mem_filter.mp member).1

theorem Stands.readable_append (stands : durable.Stands entries) {appends : List Appended}
    (readable : ∀ appended ∈ appends, appended.entry.Readable) :
    ∀ entry ∈ entries ++ standing appends, entry.Readable := by
  intro entry listed
  rcases List.mem_append.mp listed with old | new
  · exact stands.readable entry old
  · exact readable_standing readable entry new

theorem Stands.reopened (stands : durable.Stands entries) {attempts : List WriteAttempt}
    (readable : ∀ appended ∈ durable.appends attempts, appended.entry.Readable)
    (unbroken : Journal.Unbroken (durable.appends attempts)) (syncs : Bool) :
    ∃ reopened, DurableTables.openAt (.file (attempts.foldl attempt durable).journal.close) syncs =
        (.file reopened.journal.file, .ok reopened) ∧
      reopened.Stands (entries ++ standing (durable.appends attempts)) := by
  obtain ⟨bytes, fair⟩ := bytes_attempts readable
  obtain ⟨tail, same, torn⟩ := Journal.left_eq fair readable unbroken
  refine stands_of_torn (stands.readable_append readable) ?_ (torn.imp_right And.left) syncs
  rw [Journal.close_eq, bytes, stands.bytes, same]
  simp [framesOf]

theorem Stands.tables_attempts (stands : durable.Stands entries) (attempts : List WriteAttempt) :
    (attempts.foldl attempt durable).tables = Tables.empty.replay
      ((entries ++ acknowledged (durable.appends attempts)).map JournalEntry.change) := by
  rw [DurableTables.tables_attempts, stands.tables, List.map_append]
  simp only [Tables.replay, List.foldl_append]

/-- Behind a frame that lacks more than what follows, nothing is found again: neither the frame nor any
write that was accepted after it. -/
theorem Stands.lost_behind_torn (stands : durable.Stands entries) {attempts : List WriteAttempt}
    (readable : ∀ appended ∈ durable.appends attempts, appended.entry.Readable)
    {before after : List Appended} {torn : Appended}
    (found : durable.appends attempts = before ++ torn :: after)
    (whole : ∀ appended ∈ before, ¬appended.IsTorn) (started : 5 ≤ torn.left.length)
    (lacking : torn.left.length + (after.flatMap Appended.left).length <
      (Frame.of torn.entry).length) (syncs : Bool) :
    ∃ reopened, DurableTables.openAt (.file (attempts.foldl attempt durable).journal.close) syncs =
        (.file reopened.journal.file, .ok reopened) ∧
      reopened.Stands (entries ++ standing before) := by
  obtain ⟨bytes, fair⟩ := bytes_attempts readable
  rw [found] at bytes fair readable
  have early := fun appended listed => readable appended (List.mem_append_left _ listed)
  have unbroken : Journal.Unbroken before :=
    List.pairwise_of_forall_mem_list fun earlier listed _ _ isTorn =>
      absurd isTorn (whole earlier listed)
  obtain ⟨tail, same, cut⟩ := Journal.left_eq
    (fun appended listed => fair appended (List.mem_append_left _ listed)) early unbroken
  -- What stands in front of the torn frame ends with a whole one.
  obtain rfl : tail = [] := cut.resolve_right fun ⟨_, appended, listed, isTorn⟩ =>
    whole appended listed isTorn
  have last : torn ∈ before ++ torn :: after := by simp
  have front := (fair torn last).front
  have unfinished := Frame.take_unfinished (readable torn last).length started lacking
  rw [← Frame.of, ← List.prefix_iff_eq_take.mp front] at unfinished
  refine stands_of_torn (stands.readable_append early) ?_ (.inr (Journal.scan_cut ?_ unfinished)) syncs
  · rw [Journal.close_eq, bytes, stands.bytes]
    simp [framesOf, same]
  · have filled : torn.left ≠ [] := List.ne_nil_of_length_pos (by omega)
    simp [filled]

end Reopening

/-- Writes go on whatever the disk refuses, and then the journal is opened again. If nothing was added behind
a frame cut short, the opening succeeds and restores each accepted write, in order, and besides just
the refused ones whose frames are whole; so it restores the tables that were there when no refused
write left a whole frame. -/
theorem restored_after_refusals {start : DurableTables} {entries : List JournalEntry}
    (stands : start.Stands entries) (attempts : List WriteAttempt)
    (readable : ∀ appended ∈ start.appends attempts, appended.entry.Readable)
    (unbroken : Journal.Unbroken (start.appends attempts)) (syncs : Bool) :
    ∃ after reopened, after = attempts.foldl attempt start ∧
      DurableTables.openAt (.file after.journal.close) syncs =
        (.file reopened.journal.file, .ok reopened) ∧
      reopened.Stands (entries ++ standing (start.appends attempts)) ∧
      after.tables = Tables.empty.replay
        ((entries ++ acknowledged (start.appends attempts)).map JournalEntry.change) ∧
      (acknowledged (start.appends attempts)).Sublist (standing (start.appends attempts)) ∧
      (standing (start.appends attempts) = acknowledged (start.appends attempts) ↔
        ∀ appended ∈ start.appends attempts, appended.IsWhole → appended.accepted) ∧
      ((∀ appended ∈ start.appends attempts, appended.IsWhole → appended.accepted) →
        reopened.tables = after.tables) := by
  obtain ⟨-, fair⟩ := bytes_attempts readable
  obtain ⟨reopened, opened, restored⟩ := stands.reopened readable unbroken syncs
  have same := Journal.standing_eq_iff fair
  refine ⟨_, reopened, rfl, opened, restored, stands.tables_attempts attempts,
    Journal.acknowledged_sublist fair, same, fun honest => ?_⟩
  rw [restored.tables, stands.tables_attempts, same.mpr honest]

theorem unbroken_of_short {start : DurableTables} {attempts : List WriteAttempt}
    (readable : ∀ appended ∈ start.appends attempts, appended.entry.Readable)
    (short : ∀ appended ∈ start.appends attempts,
      (Frame.of appended.entry).length < Journal.bufferSize) :
    Journal.Unbroken (start.appends attempts) := by
  obtain ⟨-, fair⟩ := bytes_attempts readable
  exact List.pairwise_of_forall_mem_list fun earlier listed _ _ torn =>
    absurd torn ((fair earlier listed).short (short earlier listed))

namespace Sample

open Journal.Sample (left right)

def vacant : DurableTables := ⟨.empty, Journal.Sample.vacant⟩

def refused : Feedback := ⟨.of left right, true⟩

def accepted : Feedback := ⟨.of left ⟨.ofNat 1, .ofNat 3⟩, false⟩

def attempts (disk : Disk) : List WriteAttempt :=
  [⟨disk, .epoch, .upsertFeedback refused⟩, ⟨.sound, .epoch, .upsertFeedback accepted⟩]

theorem stands_vacant : vacant.Stands [] := (holds_nil true).stands

def refusals : List Disk := [.unsynced, .full 3]

def answers : List (JournalEntry × Bool) :=
  [(⟨1, .epoch, .upsertFeedback refused⟩, false), (⟨1, .epoch, .upsertFeedback accepted⟩, true)]

theorem appends_attempts : ∀ disk ∈ refusals, (vacant.appends (attempts disk)).map
    (fun appended => (appended.entry, appended.accepted)) = answers := by
  decide +kernel

section Refusal

variable {disk : Disk} (listed : disk ∈ refusals) {appended : Appended}
  (member : appended ∈ vacant.appends (attempts disk))

include listed member

theorem answered : (appended.entry, appended.accepted) ∈ answers := by
  rw [← appends_attempts disk listed]
  exact List.mem_map_of_mem member

theorem readable_attempts : appended.entry.Readable := by
  have readable : ∀ answer ∈ answers, answer.1.Readable := by decide +kernel
  exact readable (appended.entry, appended.accepted) (answered listed member)

theorem short_attempts : (Frame.of appended.entry).length < Journal.bufferSize := by
  have short : ∀ answer ∈ answers, (Frame.of answer.1).length < Journal.bufferSize := by
    decide +kernel
  exact short (appended.entry, appended.accepted) (answered listed member)

end Refusal

theorem unbroken_attempts {disk : Disk} (listed : disk ∈ refusals) :
    Journal.Unbroken (vacant.appends (attempts disk)) :=
  unbroken_of_short (fun _ => readable_attempts listed) fun _ => short_attempts listed

end Sample

open DurableTables.Sample

theorem restored_after_refused_verdict :
    vacant.Stands [] ∧
    (∀ appended ∈ vacant.appends (attempts .unsynced), appended.entry.Readable) ∧
    Journal.Unbroken (vacant.appends (attempts .unsynced)) ∧
    ∃ after reopened, after = (attempts .unsynced).foldl attempt vacant ∧
      (DurableTables.openAt (.file after.journal.close) true).2 = .ok reopened ∧
      reopened.Stands (standing (vacant.appends (attempts .unsynced))) := by
  have readable := fun appended => @readable_attempts .unsynced (.head _) appended
  have unbroken := unbroken_attempts (.head _ : .unsynced ∈ refusals)
  obtain ⟨after, reopened, same, opened, restored, -⟩ :=
    restored_after_refusals stands_vacant (attempts .unsynced) readable unbroken true
  rw [List.nil_append] at restored
  exact ⟨stands_vacant, readable, unbroken, after, reopened, same, congrArg Prod.snd opened, restored⟩

theorem standing_refused {disk : Disk} (listed : disk ∈ refusals) :
    standing (vacant.appends (attempts disk)) = answers.map Prod.fst := by
  -- The first frame stands whole since the buffer takes it, the second since it was accepted.
  have last : ∀ disk ∈ refusals, ∀ tried ∈ (attempts disk).head?, ∀ appended ∈
      (vacant.attempt tried).appends (attempts disk).tail, appended.accepted := by
    decide +kernel
  have whole : ∀ appended ∈ vacant.appends (attempts disk), appended.IsWhole := by
    intro appended member
    rcases List.mem_append.mp member with first | second
    · exact isWhole_of_short vacant _ rfl (Option.mem_toList.mp first)
        (readable_attempts listed member) (short_attempts listed member)
    · obtain ⟨-, fair⟩ := bytes_attempts fun _ => readable_attempts listed
      exact (fair appended member).whole (last disk listed _ rfl appended second)
  rw [standing, List.filter_eq_self.mpr fun appended member => decide_eq_true (whole appended member),
    ← appends_attempts disk listed, List.map_map]
  rfl

/-- The caller was told that the verdict is not kept, the running process does not know it, and after the
next opening it is there. -/
theorem restored_of_refusal {disk : Disk} (listed : disk ∈ refusals) :
    (vacant.write disk .epoch (.upsertFeedback refused)).1.isOk = false ∧
      ∃ after reopened, after = (attempts disk).foldl attempt vacant ∧
        (DurableTables.openAt (.file after.journal.close) true).2 = .ok reopened ∧
        after.tables.feedback.get? refused.pair = none ∧
        reopened.tables.feedback.get? refused.pair = some refused := by
  have failed : ∀ disk ∈ refusals,
      (vacant.write disk .epoch (.upsertFeedback refused)).1.isOk = false := by
    decide +kernel
  have unknown : ∀ disk ∈ refusals,
      ((attempts disk).foldl attempt vacant).tables.feedback.get? refused.pair = none := by
    decide +kernel
  have known : (Tables.empty.replay ((answers.map Prod.fst).map
      JournalEntry.change)).feedback.get? refused.pair = some refused := by
    decide +kernel
  obtain ⟨reopened, opened, restored⟩ := stands_vacant.reopened (fun _ => readable_attempts listed)
    (unbroken_attempts listed) true
  refine ⟨failed disk listed, _, reopened, rfl, congrArg Prod.snd opened, unknown disk listed, ?_⟩
  rw [restored.tables, List.nil_append, standing_refused listed]
  exact known

theorem refused_verdict_restored :
    (vacant.write .unsynced .epoch (.upsertFeedback refused)).1.isOk = false ∧
      ∃ after reopened, after = (attempts .unsynced).foldl attempt vacant ∧
        (DurableTables.openAt (.file after.journal.close) true).2 = .ok reopened ∧
        after.tables.feedback.get? refused.pair = none ∧
        reopened.tables.feedback.get? refused.pair = some refused :=
  restored_of_refusal (.head _)

end DurableTables

end RecordLinkage
