import RecordLinkage.Proofs.Journal.Frames
import RecordLinkage.Proofs.Time.Rfc3339

/-! A journal that lost the end of its file, at any byte, opens with the entries whose frames are whole,
and is as if no other had ever been added. -/

namespace RecordLinkage

namespace Journal

def within : Nat → List JournalEntry → List JournalEntry
  | _, [] => []
  | room, entry :: entries =>
      if (Frame.of entry).length ≤ room then
        entry :: within (room - (Frame.of entry).length) entries
      else []

def Numbered (entries : List JournalEntry) : Prop :=
  entries.map JournalEntry.sequence =
    (List.range entries.length).map fun index => .ofNat (index + 1)

theorem within_zero (entries : List JournalEntry) : within 0 entries = [] := by
  cases entries with
  | nil => rfl
  | cons entry entries => simp [within, Frame.of, Frame.length_ofPayload]

theorem within_eq_take (room : Nat) (entries : List JournalEntry) :
    within room entries = entries.take (within room entries).length := by
  induction entries generalizing room with
  | nil => rfl
  | cons entry entries ih =>
      unfold within
      split
      · rw [List.length_cons, List.take_succ_cons, ← ih]
      · rfl

theorem within_framesOf (entries : List JournalEntry) :
    within (framesOf entries).length entries = entries := by
  induction entries with
  | nil => rfl
  | cons entry entries ih =>
      have size : (framesOf (entry :: entries)).length =
          (Frame.of entry).length + (framesOf entries).length := by
        simp [framesOf]
      rw [within, if_pos (by omega), size, Nat.add_sub_cancel_left, ih]

theorem Numbered.take {entries : List JournalEntry} (numbered : Numbered entries) (count : Nat) :
    Numbered (entries.take count) := by
  unfold Numbered at numbered ⊢
  rw [List.map_take, numbered, List.length_take, ← List.map_take, List.take_range]

theorem Numbered.append {entries : List JournalEntry} (numbered : Numbered entries)
    (writtenAt : Instant) (change : Change) :
    Numbered (entries ++ [⟨.ofNat (entries.length + 1), writtenAt, change⟩]) := by
  unfold Numbered at numbered ⊢
  simp only [List.map_append, numbered, List.map_cons, List.map_nil, List.length_append,
    List.length_cons, List.length_nil, List.range_succ, Nat.zero_add]

theorem Numbered.lastSequence {entries : List JournalEntry} (numbered : Numbered entries) :
    lastSequence entries = .ofNat entries.length := by
  have last := congrArg List.getLast? numbered
  rw [List.getLast?_map, List.getLast?_map, List.getLast?_range] at last
  unfold Journal.lastSequence
  cases found : entries.getLast? with
  | none => simp [List.getLast?_eq_none_iff.mp found]
  | some entry =>
      rw [found] at last
      split at last
      · simp at last
      · rename_i filled
        simp only [Option.map_some, Option.some.injEq] at last
        have number : entry.sequence = .ofNat entries.length := by
          rw [last, Nat.sub_add_cancel (by omega)]
        exact number

section Cut

variable {entries : List JournalEntry} (readable : ∀ entry ∈ entries, entry.Readable)

include readable

/-- What is left of some frames: whole ones, and perhaps the front of another one. -/
theorem take_framesOf (room : Nat) :
    ∃ tail, (framesOf entries).take room = framesOf (within room entries) ++ tail ∧
      (tail = [] ∨ scan tail = ⟨[], 0, .cut⟩) := by
  induction entries generalizing room with
  | nil => exact ⟨[], by simp [framesOf, within], .inl rfl⟩
  | cons entry entries ih =>
      have whole : framesOf (entry :: entries) = Frame.of entry ++ framesOf entries := rfl
      unfold within
      split
      · rename_i fits
        obtain ⟨tail, same, torn⟩ := ih (fun other listed => readable other (.tail _ listed))
          (room - (Frame.of entry).length)
        refine ⟨tail, ?_, torn⟩
        rw [whole, List.take_append, List.take_of_length_le fits, same]
        exact (List.append_assoc _ _ _).symm
      · rename_i spills
        refine ⟨(Frame.of entry).take room, ?_, ?_⟩
        · rw [whole, List.take_append_of_le_length (by omega)]
          rfl
        · by_cases none : room = 0
          · exact .inl (by simp [none])
          · exact .inr (scan_torn (readable entry (.head _)).length (by omega)
              (Nat.lt_of_not_le spills))

theorem readable_within (room : Nat) : ∀ entry ∈ within room entries, entry.Readable := by
  intro entry listed
  rw [within_eq_take] at listed
  exact readable entry (List.mem_of_mem_take listed)

theorem frames_whole : frames (header ++ framesOf entries) =
    ⟨entries, (framesOf entries).length, .clean⟩ := by
  have scanned := scan_framesOf readable []
  rw [List.append_nil, scan_nil] at scanned
  rw [frames, List.drop_left, scanned, List.append_nil, Nat.add_zero]

/-- Behind the frames of a journal stands nothing, or a frame that was cut short. -/
theorem frames_torn {tail : List UInt8} (torn : tail = [] ∨ scan tail = ⟨[], 0, .cut⟩) :
    (frames (header ++ (framesOf entries ++ tail))).entries = entries ∧
      mend (header ++ (framesOf entries ++ tail)) = header ++ framesOf entries := by
  have found : frames (header ++ (framesOf entries ++ tail)) =
      ⟨entries ++ (scan tail).entries, (framesOf entries).length + (scan tail).length,
        (scan tail).ending⟩ := by
    rw [frames, List.drop_left, scan_framesOf readable]
  rw [mend, found]
  rcases torn with rfl | torn
  · simp [scan_nil]
  · simp only [torn, List.append_nil, Nat.add_zero, true_and]
    rw [← List.append_assoc, ← List.length_append, List.take_left]

theorem openAt_torn {tail : List UInt8} (torn : tail = [] ∨ scan tail = ⟨[], 0, .cut⟩)
    (syncs : Bool) :
    openAt (.file (header ++ (framesOf entries ++ tail))) syncs =
      (.file (header ++ framesOf entries),
        .ok ⟨header ++ framesOf entries, [], lastSequence entries, syncs⟩) := by
  obtain ⟨found, mended⟩ := frames_torn readable torn
  have long : ¬(header ++ (framesOf entries ++ tail)).length < header.length := by simp
  have magic : (header ++ (framesOf entries ++ tail)).take journalMagic.length = journalMagic := rfl
  rw [openAt, if_neg long, if_neg (by simp [magic]), found, mended]

theorem openAt_take (numbered : Numbered entries) (length : Nat) (syncs : Bool) :
    openAt (.file ((header ++ framesOf entries).take length)) syncs =
      (.file (header ++ framesOf (within (length - header.length) entries)),
        .ok ⟨header ++ framesOf (within (length - header.length) entries), [],
          .ofNat (within (length - header.length) entries).length, syncs⟩) := by
  have five : header.length = 5 := rfl
  by_cases early : length < header.length
  · have none : length - header.length = 0 := by omega
    rw [none, within_zero]
    have short : ((header ++ framesOf entries).take length).length < header.length := by
      rw [List.length_take]
      omega
    rw [openAt, if_pos short, show framesOf [] = [] from rfl, List.append_nil]
    rfl
  · have split : (header ++ framesOf entries).take length =
        header ++ (framesOf entries).take (length - header.length) := by
      rw [List.take_append, List.take_of_length_le (by omega)]
    obtain ⟨tail, same, torn⟩ := take_framesOf readable (length - header.length)
    rw [split, same, openAt_torn (readable_within readable _) torn,
      Numbered.lastSequence (within_eq_take _ entries ▸ numbered.take _)]

end Cut

/-- With an empty buffer all bytes reach the file, through the buffer or past it. -/
theorem push_flush {journal : Journal} (empty : journal.buffer = []) (bytes : List UInt8) :
    ∃ pushed, journal.push none bytes = (true, none, pushed) ∧
      pushed.flush none = (true, none, { journal with file := journal.file ++ bytes }) := by
  have flushed : journal.flush none = (true, none, journal) := by
    cases journal
    simp_all [flush, writeThrough]
  have ready : (if bufferSize - journal.buffer.length < bytes.length then journal.flush none
      else (true, none, journal)) = (true, none, journal) := by
    split
    · exact flushed
    · rfl
  simp only [push, ready]
  by_cases fits : bytes.length < bufferSize
  · refine ⟨{ journal with buffer := journal.buffer ++ bytes }, by simp [fits], ?_⟩
    simp [flush, writeThrough, empty]
  · refine ⟨{ journal with file := journal.file ++ bytes }, by simp [fits, writeThrough], ?_⟩
    simp [flush, writeThrough, empty]

theorem append_encoded {journal : Journal} (empty : journal.buffer = []) {writtenAt : Instant}
    {change : Change} {frame : List UInt8}
    (encoded : Frame.encode? ⟨journal.sequence + 1, writtenAt, change⟩ = some frame) :
    journal.append .sound writtenAt change = (.ok (journal.sequence + 1),
      { journal with file := journal.file ++ frame, sequence := journal.sequence + 1 }) := by
  obtain ⟨pushed, put, flushed⟩ := push_flush empty frame
  simp [append, encoded, put, flushed]

theorem append_eq {journal : Journal} (empty : journal.buffer = []) {writtenAt : Instant}
    {change : Change} (readable : JournalEntry.Readable ⟨journal.sequence + 1, writtenAt, change⟩) :
    journal.append .sound writtenAt change = (.ok (journal.sequence + 1),
      { journal with
        file := journal.file ++ Frame.of ⟨journal.sequence + 1, writtenAt, change⟩
        sequence := journal.sequence + 1 }) :=
  append_encoded empty (Frame.encode?_eq readable)

structure Holds (journal : Journal) (entries : List JournalEntry) : Prop where
  file : journal.file = header ++ framesOf entries
  buffer : journal.buffer = []
  sequence : journal.sequence = .ofNat entries.length
  numbered : Numbered entries
  readable : ∀ entry ∈ entries, entry.Readable

theorem holds_nil (syncs : Bool) : Holds ⟨header, [], 0, syncs⟩ [] := ⟨rfl, rfl, rfl, rfl, by simp⟩

section Holds

variable {journal : Journal} {entries : List JournalEntry} (holds : journal.Holds entries)

include holds

theorem Holds.frames_file :
    frames journal.file = ⟨entries, (framesOf entries).length, .clean⟩ := by
  rw [holds.file, frames_whole holds.readable]

theorem Holds.close_eq : journal.close = header ++ framesOf entries := by
  simp [close, flush, writeThrough, holds.buffer, holds.file]

theorem Holds.next_eq : journal.sequence + 1 = .ofNat (entries.length + 1) := by
  rw [holds.sequence, UInt64.ofNat_add]
  rfl

theorem Holds.append {writtenAt : Instant} {change : Change}
    (readable : JournalEntry.Readable ⟨.ofNat (entries.length + 1), writtenAt, change⟩) :
    ∃ after, journal.append .sound writtenAt change = (.ok (.ofNat (entries.length + 1)), after) ∧
      after.Holds (entries ++ [⟨.ofNat (entries.length + 1), writtenAt, change⟩]) := by
  rw [← holds.next_eq] at readable ⊢
  refine ⟨_, append_eq holds.buffer readable, ?_, holds.buffer, ?_, ?_, ?_⟩
  · simp [holds.file, framesOf]
  · rw [holds.next_eq, List.length_append]
    rfl
  · rw [holds.next_eq]
    exact holds.numbered.append writtenAt change
  · intro entry listed
    rcases List.mem_append.mp listed with old | new
    · exact holds.readable entry old
    · rw [List.mem_singleton.mp new]
      exact readable

theorem Holds.reopen (length : Nat) (syncs : Bool) :
    ∃ after, openAt (.file (journal.close.take length)) syncs = (.file after.file, .ok after) ∧
      after.Holds (within (length - header.length) entries) := by
  rw [holds.close_eq]
  refine ⟨⟨_, [], _, syncs⟩, openAt_take holds.readable holds.numbered length syncs, rfl, rfl, rfl,
    ?_, ?_⟩
  · rw [within_eq_take]
    exact holds.numbered.take _
  · exact readable_within holds.readable _

theorem Holds.reopen_whole (syncs : Bool) :
    ∃ after, openAt (.file journal.close) syncs = (.file after.file, .ok after) ∧
      after.Holds entries := by
  have opened := holds.reopen journal.close.length syncs
  have size : journal.close.length - header.length = (framesOf entries).length := by
    rw [holds.close_eq, List.length_append, Nat.add_sub_cancel_left]
  rwa [size, within_framesOf, List.take_length] at opened

end Holds

inductive Event where
  | append (writtenAt : Instant) (change : Change)
  | crash (length : Nat) (syncs : Bool)

def Event.leaves (entries : List JournalEntry) : Event → List JournalEntry
  | .append writtenAt change => entries ++ [⟨.ofNat (entries.length + 1), writtenAt, change⟩]
  | .crash length _ => within (length - header.length) entries

def undergo (journal : Journal) : Event → Option Journal
  | .append writtenAt change =>
      match journal.append .sound writtenAt change with
      | (.ok _, after) => some after
      | (.error _, _) => none
  | .crash length syncs => (openAt (.file (journal.close.take length)) syncs).2.toOption

def AllReadable : List JournalEntry → List Event → Prop
  | _, [] => True
  | entries, event :: events =>
      (∀ entry ∈ event.leaves entries, entry.Readable) ∧ AllReadable (event.leaves entries) events

theorem Holds.undergo {journal : Journal} {entries : List JournalEntry}
    (holds : journal.Holds entries) {event : Event}
    (readable : ∀ entry ∈ event.leaves entries, entry.Readable) :
    ∃ after, journal.undergo event = some after ∧ after.Holds (event.leaves entries) := by
  cases event with
  | append writtenAt change =>
      have last := readable ⟨.ofNat (entries.length + 1), writtenAt, change⟩ (by simp [Event.leaves])
      obtain ⟨after, answered, held⟩ := holds.append last
      exact ⟨after, by simp [Journal.undergo, answered], held⟩
  | crash length syncs =>
      obtain ⟨after, opened, held⟩ := holds.reopen length syncs
      exact ⟨after, by simp [Journal.undergo, opened, Except.toOption], held⟩

theorem Holds.history {journal : Journal} {entries : List JournalEntry}
    (holds : journal.Holds entries) {events : List Event} (readable : AllReadable entries events) :
    ∃ after, events.foldlM Journal.undergo journal = some after ∧
      after.Holds (events.foldl Event.leaves entries) := by
  induction events generalizing journal entries with
  | nil => exact ⟨journal, rfl, holds⟩
  | cons event events ih =>
      obtain ⟨next, went, held⟩ := holds.undergo readable.1
      obtain ⟨after, rest, last⟩ := ih held readable.2
      exact ⟨after, by rw [List.foldlM_cons, went]; exact rest, last⟩

/-- A journal recovers from a cut at every byte, after any appends, earlier cuts and openings: it opens
with the entries whose frames are whole, numbered from one on, and its file ends with the last of
them. -/
theorem recovers_at_every_byte (syncs : Bool) (events : List Event)
    (readable : AllReadable [] events) :
    ∃ journal, events.foldlM undergo ⟨header, [], 0, syncs⟩ = some journal ∧
      journal.close = header ++ framesOf (events.foldl Event.leaves []) ∧
      ∀ (length : Nat) (syncs : Bool), ∃ whole after,
        whole = within (length - header.length) (events.foldl Event.leaves []) ∧
        openAt (.file (journal.close.take length)) syncs = (.file after.file, .ok after) ∧
        frames after.file = ⟨whole, (framesOf whole).length, .clean⟩ ∧
        after.file = header ++ framesOf whole ∧
        after.sequence = .ofNat whole.length ∧
        Numbered whole := by
  obtain ⟨journal, went, holds⟩ := (holds_nil syncs).history readable
  refine ⟨journal, went, holds.close_eq, fun length syncs => ?_⟩
  obtain ⟨after, opened, held⟩ := holds.reopen length syncs
  exact ⟨_, after, rfl, opened, held.frames_file, held.file, held.sequence, held.numbered⟩

instance decidableAllReadable : (entries : List JournalEntry) → (events : List Event) →
    Decidable (AllReadable entries events)
  | _, [] => inferInstanceAs (Decidable True)
  | entries, event :: events =>
      have : Decidable (AllReadable (event.leaves entries) events) := decidableAllReadable _ events
      inferInstanceAs (Decidable (_ ∧ _))

def lostVerdict : List Event :=
  let verdict (linked : Bool) : Change :=
    .upsertFeedback ⟨.of ⟨.ofNat 1, .ofNat 2⟩ ⟨.ofNat 1, .ofNat 3⟩, linked⟩
  [.append .epoch (verdict true), .append .epoch (verdict true), .crash 704 true,
    .append .epoch (verdict false)]

theorem recovers_lost_verdict :
    (lostVerdict.foldl Event.leaves []).map JournalEntry.sequence = [1, 2] ∧
      ∃ journal, lostVerdict.foldlM undergo ⟨header, [], 0, true⟩ = some journal ∧
        ∀ length, ∃ after,
          openAt (.file (journal.close.take length)) true = (.file after.file, .ok after) ∧
          (frames after.file).entries =
            within (length - header.length) (lostVerdict.foldl Event.leaves []) := by
  have readable : AllReadable [] lostVerdict := by decide +kernel
  obtain ⟨journal, went, -, recovers⟩ := recovers_at_every_byte true lostVerdict readable
  refine ⟨by decide +kernel, journal, went, fun length => ?_⟩
  obtain ⟨whole, after, kept, opened, found, -⟩ := recovers length true
  exact ⟨after, opened, (congrArg Scan.entries found).trans kept⟩

end Journal

end RecordLinkage
