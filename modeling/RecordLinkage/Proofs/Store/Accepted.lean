import RecordLinkage.Proofs.Journal.Recovery
import RecordLinkage.Proofs.Store.Changes
import RecordLinkage.Store

/-! What the journal accepts and what of it is read back. Every payload below four gigabytes is accepted,
but only one that fits a frame and whose scores come back from their text is the entry that it was. -/

namespace RecordLinkage

open Form

namespace Form

theorem read?_write {α : Type} [Form α] {value : α} (whole : (toJson value).WellFormed) :
    (read? (write value) : Option α) = ofJson? (toJson value) := by
  rw [read?, write, Json.read?_render whole]
  rfl

theorem back_of_list {α : Type} [Form α] {values : List α}
    (back : ofJson? (toJson values) = some values) :
    ∀ value ∈ values, ofJson? (toJson value) = some value := by
  change (values.map toJson).mapM ofJson? = some values at back
  induction values with
  | nil => simp
  | cons first values ih =>
      simp only [List.map_cons, List.mapM_cons, Option.pure_def, Option.bind_eq_bind,
        Option.bind_eq_some_iff, Option.some.injEq, List.cons.injEq] at back
      obtain ⟨_, head, _, tail, rfl, rfl⟩ := back
      simpa [head] using ih tail

end Form

theorem wellFormed_scored (scored : ScoredEdge) : (toJson scored).WellFormed := by
  refine Json.wellFormed_record ?_
  have score : (toJson scored.score).WellFormed := Json.wellFormed_ofDouble scored.score
  simp [(exact_id _).wellFormed, (exact_entity _).wellFormed, score]

/-- Of an edge only the score is in doubt. -/
theorem ofJson?_scored (scored : ScoredEdge) : (ofJson? (toJson scored) : Option ScoredEdge) =
    (ofJson? (toJson scored.score)).map fun score => ⟨scored.edge, score⟩ := by
  have fields : (toJson scored : Json).record? ["linking_id", "src", "dst", "score"] =
      some [some (toJson scored.edge.cluster), some (toJson scored.edge.link.src),
        some (toJson scored.edge.link.dst), some (toJson scored.score)] :=
    Json.record?_ofRecord rfl (by decide)
  refine (congrArg (Option.bind · _) fields).trans ?_
  simp only [Option.bind_some, (exact_id _).required, (exact_entity _).required, Option.pure_def,
    Option.bind_eq_bind]
  exact (Option.map_eq_bind ..).symm

namespace Change

theorem wellFormed_payload (change : Change) : change.payload.WellFormed := by
  cases change with
  | upsertEdges edges writtenAt =>
      have listed : (toJson edges).WellFormed := by
        refine Json.wellFormed_items fun item member => ?_
        obtain ⟨scored, _, rfl⟩ := List.mem_map.mp member
        exact wellFormed_scored scored
      refine Json.wellFormed_record ?_
      simp [listed, (exact_instant _).wellFormed]
  | removeEdges | upsertFeedback | removeFeedback | appendEntries | removeEntries =>
      exact (payload_exact (by trivial)).1

theorem ofJson?_change (change : Change) :
    (ofJson? (toJson change) : Option Change) = ofPayload? change.kindName change.payload := by
  show (Json.readText? (Json.escape (utf8 change.kindName))).bind
    (ofPayload? · change.payload) = _
  rw [Json.readText?_escape]
  rfl

theorem ofJson?_upsertEdges (edges : List ScoredEdge) (writtenAt : Instant) :
    (ofJson? (toJson (upsertEdges edges writtenAt)) : Option Change) =
      (ofJson? (toJson edges)).map fun edges => upsertEdges edges writtenAt := by
  have fields : (payload (upsertEdges edges writtenAt)).record? ["edges", "written_at"] =
      some [some (toJson edges), some (toJson writtenAt)] :=
    Json.record?_ofRecord rfl (by decide)
  rw [ofJson?_change]
  simp only [ofPayload?, kindName, fields, Option.bind_some, (exact_instant _).required,
    Option.pure_def, Option.bind_eq_bind]
  exact (Option.map_eq_bind ..).symm

theorem scoresReadBack_of_back {change : Change} (back : ofJson? (toJson change) = some change) :
    change.ScoresReadBack := by
  cases change with
  | upsertEdges edges writtenAt =>
      rw [ofJson?_upsertEdges, Option.map_eq_some_iff] at back
      obtain ⟨read, listed, same⟩ := back
      obtain rfl : read = edges := by simpa using same
      intro scored member
      have found := back_of_list listed scored member
      rw [ofJson?_scored, Option.map_eq_some_iff] at found
      obtain ⟨score, read, same⟩ := found
      rw [read?_write (Json.wellFormed_ofDouble _), ← same]
      rw [← same] at read
      exact read
  | removeEdges | upsertFeedback | removeFeedback | appendEntries | removeEntries => trivial

end Change

theorem JournalEntry.wellFormed (entry : JournalEntry) : (toJson entry).WellFormed := by
  have change : (toJson entry.change).WellFormed :=
    Json.wellFormed_record (by simpa using entry.change.wellFormed_payload)
  refine Json.wellFormed_record ?_
  simp [(exact_word _).wellFormed, (exact_instant _).wellFormed, change]

theorem JournalEntry.ofJson?_toJson (entry : JournalEntry) :
    (ofJson? (toJson entry) : Option JournalEntry) =
      (ofJson? (toJson entry.change)).map fun change => ⟨entry.sequence, entry.writtenAt, change⟩ := by
  have fields : (toJson entry : Json).record? ["sequence", "timestamp", "kind"] =
      some [some (toJson entry.sequence), some (toJson entry.writtenAt),
        some (toJson entry.change)] :=
    Json.record?_ofRecord rfl (by decide)
  refine (congrArg (Option.bind · _) fields).trans ?_
  simp only [Option.bind_some, (exact_word _).required, (exact_instant _).required, Option.pure_def,
    Option.bind_eq_bind]
  exact (Option.map_eq_bind ..).symm

theorem JournalEntry.read?_write_iff (entry : JournalEntry) :
    (read? (write entry) : Option JournalEntry) = some entry ↔ entry.change.ScoresReadBack := by
  constructor
  · intro read
    rw [read?_write entry.wellFormed, ofJson?_toJson, Option.map_eq_some_iff] at read
    obtain ⟨change, back, same⟩ := read
    obtain rfl : change = entry.change := congrArg JournalEntry.change same
    exact Change.scoresReadBack_of_back back
  · exact fun scores => (exact_entry scores).read?_write

namespace Frame

variable {entry : JournalEntry} {frame : List UInt8}

theorem encode?_of_length (fits : (write entry).length < 2 ^ 32) :
    encode? entry = some (ofPayload (write entry)) := if_pos fits

theorem take_tooLong {payload : List UInt8} (fits : payload.length < 2 ^ 32)
    (long : maxFrameLength < payload.length) (rest : List UInt8) :
    take (ofPayload payload ++ rest) = .damaged (.tooLong payload.length) := by
  have front : ofPayload payload ++ rest = frameVersion :: (wordBytes payload.length.toUInt32 ++
      (payload ++ (wordBytes (checksum payload) ++ rest))) := by
    simp [ofPayload]
  have length : payload.length.toUInt32.toNat = payload.length := Nat.mod_eq_of_lt fits
  simp only [front, take, takeWord?_wordBytes, length, long, ne_eq, not_true_eq_false, if_false, if_true]

theorem take_encoded (accepted : encode? entry = some frame) (rest : List UInt8) :
    take (frame ++ rest) =
      if maxFrameLength < (write entry).length then .damaged (.tooLong (write entry).length)
      else (read? (write entry) : Option JournalEntry).elim (.damaged .payload) (.whole · rest) := by
  simp only [encode?, Option.ite_none_right_eq_some, Option.some.injEq] at accepted
  obtain ⟨fits, rfl⟩ := accepted
  split
  · rename_i long
    exact take_tooLong fits long rest
  · have front : ofPayload (write entry) ++ rest =
        frameVersion :: (wordBytes (write entry).length.toUInt32 ++
          (write entry ++ (wordBytes (checksum (write entry)) ++ rest))) := by
      simp [ofPayload]
    rw [front, take_ofPayload (by omega), if_neg (by simp), List.drop_left, takeWord?_wordBytes,
      List.take_left]
    simp only [takePayload, Option.elim_some, ne_eq, not_true_eq_false, if_false]
    cases (read? (write entry) : Option JournalEntry) <;> rfl

theorem take_encoded_iff (accepted : encode? entry = some frame) (rest : List UInt8) :
    take (frame ++ rest) = .whole entry rest ↔
      (write entry).length ≤ maxFrameLength ∧ entry.change.ScoresReadBack := by
  rw [take_encoded accepted, ← entry.read?_write_iff]
  split
  · simp only [reduceCtorEq, false_iff, not_and]
    omega
  · cases (read? (write entry) : Option JournalEntry) with
    | none => simp
    | some read =>
        simp only [Option.elim_some, Taken.whole.injEq, and_true, Option.some.injEq, iff_and_self]
        omega

end Frame

namespace Journal

section Append

variable {journal after : Journal} {room left : Room} {bytes : List UInt8}

theorem writeThrough_all (wrote : journal.writeThrough room bytes = (bytes.length, left, after)) :
    after = { journal with file := journal.file ++ bytes } := by
  simp only [writeThrough, Prod.mk.injEq] at wrote
  obtain ⟨all, -, rfl⟩ := wrote
  rw [all, List.take_length]

theorem flush_ok (flushed : journal.flush room = (true, left, after)) :
    after = { journal with file := journal.file ++ journal.buffer, buffer := [] } := by
  rcases wrote : journal.writeThrough room journal.buffer with ⟨taken, rest, written⟩
  simp only [flush, wrote, Prod.mk.injEq, decide_eq_true_eq] at flushed
  obtain ⟨rfl, -, rfl⟩ := flushed
  rw [writeThrough_all wrote, List.drop_length]

/-- Whether through the buffer or past it, bytes keep their place behind those that are there. -/
theorem push_ok (pushed : journal.push room bytes = (true, left, after)) :
    after.file ++ after.buffer = journal.file ++ journal.buffer ++ bytes ∧
      after.syncs = journal.syncs := by
  rcases flushed : (if bufferSize - journal.buffer.length < bytes.length then journal.flush room
    else (true, room, journal)) with ⟨ready, rest, middle⟩
  simp only [push, flushed] at pushed
  cases ready with
  | false => simp at pushed
  | true =>
      have kept : middle.file ++ middle.buffer = journal.file ++ journal.buffer ∧
          middle.syncs = journal.syncs ∧ (bufferSize ≤ bytes.length → middle.buffer = []) := by
        split at flushed
        · rw [flush_ok flushed]
          simp
        · rename_i fits
          cases flushed
          refine ⟨rfl, rfl, fun large => List.eq_nil_of_length_eq_zero ?_⟩
          have : 0 < bufferSize := by decide
          omega
      obtain ⟨front, syncs, empty⟩ := kept
      simp only [Bool.not_true, Bool.false_eq_true, if_false] at pushed
      split at pushed
      · simp only [Prod.mk.injEq, true_and] at pushed
        obtain ⟨-, rfl⟩ := pushed
        exact ⟨by rw [← List.append_assoc, front], syncs⟩
      · rename_i large
        rcases wrote : middle.writeThrough rest bytes with ⟨taken, later, written⟩
        simp only [wrote, Prod.mk.injEq, decide_eq_true_eq] at pushed
        obtain ⟨rfl, -, rfl⟩ := pushed
        have none := empty (by omega)
        rw [none, List.append_nil] at front
        rw [writeThrough_all wrote, ← front, none, List.append_nil]
        exact ⟨rfl, syncs⟩

theorem flush_push_ok (pushed : (journal.push room bytes).1)
    (flushed : ((journal.push room bytes).2.2.flush (journal.push room bytes).2.1).1) :
    ∃ sequence, ((journal.push room bytes).2.2.flush (journal.push room bytes).2.1).2.2 =
      ⟨journal.file ++ journal.buffer ++ bytes, [], sequence, journal.syncs⟩ := by
  obtain ⟨file, syncs⟩ := push_ok (Prod.ext pushed rfl)
  refine ⟨(journal.push room bytes).2.2.sequence, (flush_ok (Prod.ext flushed rfl)).trans ?_⟩
  rw [file, syncs]

/-- An accepted change stands in the file as a frame, behind what an earlier append may have left over. -/
theorem append_ok {disk : Disk} {now : Instant} {change : Change} {sequence : UInt64}
    (accepted : journal.append disk now change = (.ok sequence, after)) :
    ∃ frame, Frame.encode? ⟨sequence, now, change⟩ = some frame ∧
      after = ⟨journal.file ++ journal.buffer ++ frame, [], sequence, journal.syncs⟩ := by
  cases encoded : Frame.encode? ⟨journal.sequence + 1, now, change⟩ with
  | none => simp [append, encoded] at accepted
  | some frame =>
      -- Only a disk without the final sync, for a journal that wants it, refuses what was flushed.
      cases disk <;> cases syncs : journal.syncs
      all_goals
        simp only [append, encoded, Bool.not_eq_true'] at accepted
        split at accepted
        · cases accepted
        rename_i pushed
        split at accepted
        · cases accepted
        rename_i flushed
        obtain ⟨_, all⟩ := flush_push_ok (Bool.not_eq_false _ ▸ pushed) (Bool.not_eq_false _ ▸ flushed)
        simp only [all, syncs] at accepted
        cases accepted <;> exact ⟨frame, encoded, rfl⟩

/-- Whatever the disk does, what an accepted change put into the file is read back as the entry that it was
just when its payload fits a frame and its scores come back from their text. -/
theorem accepted_read_back_iff {disk : Disk} {now : Instant} {change : Change} {sequence : UInt64}
    (accepted : journal.append disk now change = (.ok sequence, after)) :
    ∃ frame, after.file = journal.file ++ journal.buffer ++ frame ∧ after.buffer = [] ∧
      ∀ rest, Frame.take (frame ++ rest) = .whole ⟨sequence, now, change⟩ rest ↔
        (write (⟨sequence, now, change⟩ : JournalEntry)).length ≤ maxFrameLength ∧
          change.ScoresReadBack := by
  obtain ⟨frame, encoded, rfl⟩ := append_ok accepted
  exact ⟨frame, rfl, rfl, Frame.take_encoded_iff encoded⟩

end Append

namespace Sample

def left : EntityKey := ⟨.ofNat 1, .ofNat 1⟩

def right : EntityKey := ⟨.ofNat 1, .ofNat 2⟩

def vacant : Journal := ⟨header, [], 0, true⟩

def verdict : Change := .upsertFeedback ⟨.of left right, true⟩

def unscored : Change := .upsertEdges [⟨⟨.ofNat 9, left, right⟩, .nan⟩] .epoch

end Sample

open Journal.Sample

theorem accepted_verdict_read_back : ∃ after, vacant.append .sound .epoch verdict = (.ok 1, after) ∧
    ∃ frame, after.file = header ++ frame ∧ Frame.take frame = .whole ⟨1, .epoch, verdict⟩ [] := by
  have length : (write (⟨1, .epoch, verdict⟩ : JournalEntry)).length ≤ maxFrameLength := by
    decide +kernel
  have accepted := append_eq (rfl : vacant.buffer = []) (JournalEntry.readable length trivial)
  obtain ⟨frame, file, -, back⟩ := accepted_read_back_iff accepted
  refine ⟨_, accepted, frame, file, ?_⟩
  rw [← List.append_nil frame]
  exact (back []).mpr ⟨length, trivial⟩

theorem scan_damaged {bytes : List UInt8} {fault : FrameFault}
    (damaged : Frame.take bytes = .damaged fault) : scan bytes = ⟨[], 0, .damaged fault⟩ := by
  have filled : bytes ≠ [] := by
    rintro rfl
    cases damaged
  rw [scan, if_neg filled]
  split
  all_goals
    rename_i taken
    cases damaged.symm.trans taken
  rfl

/-- A journal with a damaged frame does not open and is left as it is. -/
theorem openAt_of_ending {bytes : List UInt8} {fault : FrameFault}
    (damaged : (scan bytes).ending = .damaged fault) (syncs : Bool) :
    DurableTables.openAt (.file (header ++ bytes)) syncs =
      (.file (header ++ bytes), .error (DurableTables.openFailure (.frame fault))) := by
  have found : (frames (header ++ bytes)).ending = .damaged fault := by
    rw [frames, List.drop_left, damaged]
  have kept : mend (header ++ bytes) = header ++ bytes := by
    simp only [mend, found]
  have magic : (header ++ bytes).take journalMagic.length = journalMagic := by
    rw [header, List.append_assoc, List.take_left]
  have enough : ¬(header ++ bytes).length < header.length := by simp
  simp only [DurableTables.openAt, openAt, enough, if_false, magic, ne_eq, not_true_eq_false, kept, found]

theorem openAt_damaged {bytes : List UInt8} {fault : FrameFault}
    (damaged : Frame.take bytes = .damaged fault) (syncs : Bool) :
    (DurableTables.openAt (.file (header ++ bytes)) syncs).2 =
      .error (DurableTables.openFailure (.frame fault)) := by
  rw [openAt_of_ending (by rw [scan_damaged damaged])]

/-- A score that is not a number is accepted, and then the tables cannot be opened again. -/
theorem accepted_and_unreadable : ∃ after,
    vacant.append .sound .epoch unscored = (.ok 1, after) ∧
      (DurableTables.openAt (.file after.file) true).2 =
        .error (DurableTables.openFailure (.frame .payload)) := by
  have unread : (read? (write (⟨1, .epoch, unscored⟩ : JournalEntry)) : Option JournalEntry) = none := by
    decide +kernel
  have length : (write (⟨1, .epoch, unscored⟩ : JournalEntry)).length ≤ maxFrameLength := by
    decide +kernel
  have encoded : Frame.encode? ⟨1, .epoch, unscored⟩ = _ :=
    Frame.encode?_of_length (Nat.lt_of_le_of_lt length (by decide))
  have taken := Frame.take_encoded encoded []
  rw [if_neg (Nat.not_lt.mpr length), unread, List.append_nil, Option.elim_none] at taken
  exact ⟨_, append_encoded (rfl : vacant.buffer = []) encoded, openAt_damaged taken true⟩

end Journal

end RecordLinkage
