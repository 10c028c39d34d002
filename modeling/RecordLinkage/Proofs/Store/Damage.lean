import RecordLinkage.Proofs.Journal.Checksum
import RecordLinkage.Proofs.Store.Accepted

/-! Frames that are damaged on the disk. What the checksum covers cannot change without the opening of the
journal saying so and leaving the file alone, wherever in it the frame stands. -/

namespace RecordLinkage

open Form

namespace Frame

theorem take_front (length : UInt32) (behind : List UInt8) :
    take (frameVersion :: (wordBytes length ++ behind)) =
      if maxFrameLength < length.toNat then .damaged (.tooLong length.toNat)
      else if behind.length < length.toNat then .cut
      else (takeWord? (behind.drop length.toNat)).elim .cut fun found =>
        takePayload (behind.take length.toNat) found.1 found.2 := by
  simp only [take, takeWord?_wordBytes, ne_eq, not_true_eq_false, if_false]
  split
  · rfl
  · split
    · rfl
    · cases takeWord? (behind.drop length.toNat) <;> rfl

theorem takePayload_damaged {payload : List UInt8} {stored : UInt32}
    (wrong : stored ≠ checksum payload ∨ (read? payload : Option JournalEntry) = none)
    (rest : List UInt8) : ∃ fault, takePayload payload stored rest = .damaged fault := by
  by_cases other : stored = checksum payload
  · have unread := wrong.resolve_left (not_not_intro other)
    exact ⟨_, by rw [takePayload, if_neg (not_not_intro other), unread]⟩
  · exact ⟨_, if_pos other⟩

/-- The frame of a payload with another version byte, with other bytes for the checksum, or with a payload
in which up to four neighbouring bytes are others. -/
inductive Altered (payload : List UInt8) : List UInt8 → Prop
  | version {byte : UInt8} (other : byte ≠ frameVersion) :
      Altered payload (byte :: wordBytes payload.length.toUInt32 ++ payload ++
        wordBytes (RecordLinkage.checksum payload))
  | checksum {bytes : List UInt8} (four : bytes.length = 4)
      (other : bytes ≠ wordBytes (RecordLinkage.checksum payload)) :
      Altered payload (frameVersion :: wordBytes payload.length.toUInt32 ++ payload ++ bytes)
  | payload {front old new back : List UInt8} (whole : front ++ old ++ back = payload)
      (short : old.length ≤ 4) (length : new.length = old.length) (other : new ≠ old) :
      Altered payload (frameVersion :: wordBytes payload.length.toUInt32 ++ (front ++ new ++ back) ++
        wordBytes (RecordLinkage.checksum payload))

theorem take_mismatched {payload : List UInt8} (fits : payload.length < 2 ^ 32) {stored : UInt32}
    (other : stored ≠ checksum payload) (rest : List UInt8) :
    ∃ fault, take (frameVersion :: (wordBytes payload.length.toUInt32 ++
      (payload ++ (wordBytes stored ++ rest)))) = .damaged fault := by
  have length : payload.length.toUInt32.toNat = payload.length := Nat.mod_eq_of_lt fits
  rw [take_front, length]
  split
  · exact ⟨_, rfl⟩
  · rw [if_neg (by simp), List.drop_left, List.take_left, takeWord?_wordBytes]
    exact takePayload_damaged (.inl other) rest

theorem take_altered {payload frame : List UInt8} (fits : payload.length < 2 ^ 32)
    (altered : Altered payload frame) (rest : List UInt8) :
    ∃ fault, take (frame ++ rest) = .damaged fault := by
  cases altered with
  | version other => exact ⟨_, if_pos other⟩
  | @checksum bytes four other =>
      rw [← Checksum.wordBytes_wordOf four] at other ⊢
      have mismatched := take_mismatched fits (fun same => other (congrArg wordBytes same)) rest
      simpa using mismatched
  | @payload front old new back whole short length other =>
      have size : (front ++ new ++ back).length = payload.length := by
        simp [← whole, length]
      have changed : RecordLinkage.checksum payload ≠ RecordLinkage.checksum (front ++ new ++ back) := by
        intro same
        rw [← whole] at same
        exact other (eq_of_checksum short length same.symm)
      have mismatched := take_mismatched (size ▸ fits) changed rest
      rw [size] at mismatched
      simpa using mismatched

theorem encode?_eq_of {entry : JournalEntry} (accepted : (encode? entry).isSome) :
    (write entry).length < 2 ^ 32 ∧ encode? entry = some (of entry) := by
  by_cases fits : (write entry).length < 2 ^ 32
  · exact ⟨fits, if_pos fits⟩
  · rw [encode?, if_neg fits] at accepted
    contradiction

/-- An accepted frame is damaged or whole whatever is behind it. -/
theorem take_accepted {entry : JournalEntry} (accepted : (encode? entry).isSome) :
    (∃ fault, ∀ rest, take (of entry ++ rest) = .damaged fault) ∨
      ∃ read, ∀ rest, take (of entry ++ rest) = .whole read rest := by
  have taken := take_encoded (encode?_eq_of accepted).2
  split at taken
  · exact .inl ⟨_, taken⟩
  · cases found : (read? (write entry) : Option JournalEntry) with
    | none => exact .inl ⟨_, fun rest => by rw [taken, found]; rfl⟩
    | some read => exact .inr ⟨read, fun rest => by rw [taken, found]; rfl⟩

end Frame

namespace Journal

theorem scan_whole {bytes rest : List UInt8} {entry : JournalEntry}
    (whole : Frame.take bytes = .whole entry rest) :
    scan bytes = ⟨entry :: (scan rest).entries, bytes.length - rest.length + (scan rest).length,
      (scan rest).ending⟩ := by
  have filled : bytes ≠ [] := by
    rintro rfl
    cases whole
  rw [scan, if_neg filled]
  split
  all_goals
    rename_i taken
    cases whole.symm.trans taken
  rfl

/-- What stands behind accepted frames is read, unless one of them is damaged already. -/
theorem scan_accepted {entries : List JournalEntry}
    (accepted : ∀ entry ∈ entries, (Frame.encode? entry).isSome) :
    (∃ fault, ∀ rest, (scan (framesOf entries ++ rest)).ending = .damaged fault) ∨
      ∃ read, ∀ rest, scan (framesOf entries ++ rest) =
        ⟨read ++ (scan rest).entries, (framesOf entries).length + (scan rest).length,
          (scan rest).ending⟩ := by
  induction entries with
  | nil => exact .inr ⟨[], fun rest => by simp [framesOf]⟩
  | cons entry entries ih =>
      have front (rest : List UInt8) : framesOf (entry :: entries) ++ rest =
          Frame.of entry ++ (framesOf entries ++ rest) := List.append_assoc _ _ _
      obtain ⟨fault, damaged⟩ | ⟨first, whole⟩ := Frame.take_accepted (accepted entry (.head _))
      · exact .inl ⟨fault, fun rest => by rw [front, scan_damaged (damaged _)]⟩
      have step (rest : List UInt8) := scan_whole (whole (framesOf entries ++ rest))
      obtain ⟨fault, damaged⟩ | ⟨read, later⟩ := ih fun other listed => accepted other (.tail _ listed)
      · exact .inl ⟨fault, fun rest => by rw [front, step, damaged]⟩
      · refine .inr ⟨first :: read, fun rest => ?_⟩
        have length : (framesOf (entry :: entries)).length =
            (Frame.of entry).length + (framesOf entries).length := List.length_append
        rw [front, step, later, length, List.length_append, Nat.add_sub_cancel, Nat.add_assoc]
        rfl

/-- Damage to the version byte, to the checksum, or to at most four neighbouring bytes of the payload of any frame
is reported, and the file stays as it is. -/
theorem openAt_altered {before after : List JournalEntry} {entry : JournalEntry}
    (accepted : ∀ other ∈ before ++ entry :: after, (Frame.encode? other).isSome) {frame : List UInt8}
    (altered : Frame.Altered (write entry) frame) (syncs : Bool) :
    ∃ fault, DurableTables.openAt (.file (header ++ (framesOf before ++ (frame ++ framesOf after)))) syncs =
      (.file (header ++ (framesOf before ++ (frame ++ framesOf after))),
        .error (DurableTables.openFailure (.frame fault))) := by
  have fits := (Frame.encode?_eq_of (accepted entry (by simp))).1
  obtain ⟨fault, damaged⟩ | ⟨read, scanned⟩ :=
    scan_accepted fun other listed => accepted other (List.mem_append_left _ listed)
  · exact ⟨fault, openAt_of_ending (damaged _) syncs⟩
  · obtain ⟨fault, damaged⟩ := Frame.take_altered fits altered (framesOf after)
    refine ⟨fault, openAt_of_ending ?_ syncs⟩
    rw [scanned, scan_damaged damaged]

namespace Sample

def first : JournalEntry := ⟨1, .epoch, verdict⟩

def opposed : Feedback := ⟨.of left ⟨.ofNat 1, .ofNat 3⟩, false⟩

def second : JournalEntry := ⟨2, .epoch, .upsertFeedback opposed⟩

def renumbered : List UInt8 :=
  frameVersion :: wordBytes (write second).length.toUInt32 ++
    ((write second).take 12 ++ ['3'.toUInt8] ++ (write second).drop 13) ++
      wordBytes (checksum (write second))

end Sample

open Journal.Sample

theorem openAt_renumbered : ∃ fault,
    DurableTables.openAt (.file (header ++ (framesOf [first] ++ (renumbered ++ framesOf [])))) true =
      (.file (header ++ (framesOf [first] ++ (renumbered ++ framesOf []))),
        .error (DurableTables.openFailure (.frame fault))) := by
  have accepted : ∀ entry ∈ [first, second], (Frame.encode? entry).isSome := by decide +kernel
  have split : (write second).take 12 ++ ['2'.toUInt8] ++ (write second).drop 13 = write second := by
    decide +kernel
  have altered : Frame.Altered (write second) renumbered :=
    .payload split (by decide) rfl (by decide)
  exact openAt_altered accepted altered true

end Journal

end RecordLinkage
