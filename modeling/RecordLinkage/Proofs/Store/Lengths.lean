import Mathlib.Data.List.TakeWhile
import RecordLinkage.Proofs.Json.Prefixes
import RecordLinkage.Proofs.Store.Damage

/-! Frames whose length is damaged on the disk. The checksum does not cover the length: one that stays within
the file is still found out, by the checksum or by the payload, but one that reaches past the end of the
file passes for a frame cut short, and every frame from there on is taken off with it. -/

namespace RecordLinkage

open Form

theorem takeWord?_of_length {bytes : List UInt8} (long : 4 ≤ bytes.length) :
    ∃ word rest, takeWord? bytes = some (word, rest) ∧ bytes = wordBytes word ++ rest := by
  have four : (bytes.take 4).length = 4 := List.length_take_of_le long
  have split : bytes = wordBytes (wordOf (bytes.take 4)) ++ bytes.drop 4 := by
    rw [Checksum.wordBytes_wordOf four, List.take_append_drop]
  exact ⟨_, _, (congrArg takeWord? split).trans (takeWord?_wordBytes _ _), split⟩

theorem JournalEntry.toJson_object (entry : JournalEntry) : ∃ members, toJson entry = .object members :=
  ⟨_, rfl⟩

theorem JournalEntry.read?_front {entry : JournalEntry} {count : Nat} (short : count < (write entry).length) :
    (read? ((write entry).take count) : Option JournalEntry) = none := by
  obtain ⟨members, object⟩ := entry.toJson_object
  have wellFormed := entry.wellFormed
  rw [write, object] at short ⊢
  rw [object] at wellFormed
  have unread := Json.read?_front wellFormed (List.take_append_drop count _) (by simpa using short)
  rw [read?, unread]
  rfl

theorem JournalEntry.read?_followed (entry : JournalEntry) {more : List UInt8}
    (filled : Json.skipSpace more ≠ []) : (read? (write entry ++ more) : Option JournalEntry) = none := by
  obtain ⟨members, object⟩ := entry.toJson_object
  have wellFormed := entry.wellFormed
  rw [object] at wellFormed
  rw [write, object, read?, Json.read?_followed wellFormed filled]
  rfl

namespace Frame

def withLength (bytes : List UInt8) (entry : JournalEntry) : List UInt8 :=
  frameVersion :: bytes ++ write entry ++ wordBytes (checksum (write entry))

variable {entry : JournalEntry} {length : UInt32} {after : List UInt8}

theorem withLength_append : withLength (wordBytes length) entry ++ after = frameVersion ::
    (wordBytes length ++ (write entry ++ (wordBytes (checksum (write entry)) ++ after))) := by
  simp [withLength]

theorem take_past (fits : length.toNat ≤ maxFrameLength)
    (past : (write entry).length + after.length < length.toNat) :
    take (withLength (wordBytes length) entry ++ after) = .cut := by
  rw [withLength_append, take_front, if_neg (Nat.not_lt.mpr fits)]
  have short : ((write entry ++ (wordBytes (checksum (write entry)) ++ after)).drop
      length.toNat).length < 4 := by
    simp only [List.length_drop, List.length_append, wordBytes, List.length_cons, List.length_nil]
    omega
  rw [takeWord?_short short, Option.elim_none, ite_self]

def Framed (after : List UInt8) : Prop := ∀ byte ∈ after.head?, byte = frameVersion

theorem Framed.starts {next rest : List UInt8} (framed : Framed (next ++ rest)) (some : next ≠ []) :
    ∃ tail, next = frameVersion :: tail := by
  cases next with
  | nil => contradiction
  | cons byte tail => exact ⟨tail, by rw [framed byte rfl]⟩

section

variable {more rest : List UInt8} {stored : UInt32} (framed : Framed after) (some : more ≠ [])
  (split : wordBytes (checksum (write entry)) ++ after = more ++ (wordBytes stored ++ rest))

include framed some split

/-- The payload ends within the checksum, and the word behind it within the next frame. -/
theorem mismatched_behind (short : more.length ≤ 4) : stored ≠ checksum (write entry ++ more) := by
  intro same
  rw [← List.append_assoc] at split
  rcases List.append_eq_append_iff.mp split with ⟨next, joined, rfl⟩ | ⟨_, joined, -⟩
  · have length : more.length = next.length := by
      have := congrArg List.length joined
      simp only [List.length_append, wordBytes, List.length_cons, List.length_nil] at this
      omega
    have filled : next ≠ [] := by
      rw [← List.length_pos_iff, ← length]
      exact List.length_pos_iff.mpr some
    obtain ⟨tail, rfl⟩ := framed.starts filled
    rw [length] at short
    refine @checksum_extended (write entry) (write entry ++ more) tail short ?_
    rw [← same, List.append_assoc, joined, List.append_assoc]
  · have length := congrArg List.length joined
    have positive := List.length_pos_iff.mpr some
    simp only [List.length_append, wordBytes, List.length_cons, List.length_nil] at length
    omega

/-- The payload ends within the next frame. -/
theorem unread_behind (long : 4 < more.length) :
    (read? (write entry ++ more) : Option JournalEntry) = none := by
  rcases List.append_eq_append_iff.mp split with ⟨next, rfl, rfl⟩ | ⟨_, joined, -⟩
  · have filled : next ≠ [] := by
      rintro rfl
      simp [wordBytes] at long
    obtain ⟨tail, rfl⟩ := framed.starts filled
    refine entry.read?_followed fun blank => ?_
    have space := List.dropWhile_eq_nil_iff.mp blank frameVersion (by simp)
    contradiction
  · have length := congrArg List.length joined
    simp only [List.length_append, wordBytes, List.length_cons, List.length_nil] at length
    omega

end

/-- A length that is out of bounds or stays within the file. -/
theorem take_within (framed : Framed after) (other : length.toNat ≠ (write entry).length)
    (within : length.toNat ≤ maxFrameLength → length.toNat ≤ (write entry).length + after.length) :
    ∃ fault, take (withLength (wordBytes length) entry ++ after) = .damaged fault := by
  generalize behind : write entry ++ (wordBytes (checksum (write entry)) ++ after) = bytes
  have size : bytes.length = (write entry).length + after.length + 4 := by
    simp only [← behind, wordBytes, List.length_append, List.length_cons, List.length_nil]
    omega
  rw [withLength_append, behind, take_front]
  split
  · exact ⟨_, rfl⟩
  rename_i bounded
  have inside := within (Nat.le_of_not_lt bounded)
  have room : 4 ≤ (bytes.drop length.toNat).length := by
    rw [List.length_drop]
    omega
  obtain ⟨stored, rest, found, split⟩ := takeWord?_of_length room
  rw [if_neg (by omega), found, Option.elim_some]
  refine takePayload_damaged ?_ _
  rcases Nat.lt_or_gt_of_ne other with shorter | longer
  · rw [← behind, List.take_append_of_le_length (Nat.le_of_lt shorter)]
    exact .inr (JournalEntry.read?_front shorter)
  · obtain ⟨count, positive, reach⟩ : ∃ count, 0 < count ∧ length.toNat = (write entry).length + count :=
      ⟨length.toNat - (write entry).length, by omega, by omega⟩
    generalize tail : wordBytes (checksum (write entry)) ++ after = later at behind
    have taken : bytes.take length.toNat = write entry ++ later.take count := by
      rw [← behind, reach, List.take_length_add_append]
    have room : count ≤ later.length := by
      have := congrArg List.length behind
      rw [List.length_append] at this
      omega
    have some : later.take count ≠ [] := by
      rw [← List.length_pos_iff, List.length_take_of_le room]
      exact positive
    have rejoined : wordBytes (checksum (write entry)) ++ after =
        later.take count ++ (wordBytes stored ++ rest) := by
      rw [tail, ← split, ← behind, reach, List.drop_length_add_append, List.take_append_drop]
    rw [taken]
    by_cases short : (later.take count).length ≤ 4
    · exact .inl (mismatched_behind framed some rejoined short)
    · exact .inr (unread_behind framed some rejoined (Nat.lt_of_not_le short))

end Frame

namespace Journal

theorem framed_framesOf (entries : List JournalEntry) : Frame.Framed (framesOf entries) := by
  intro byte first
  cases entries with
  | nil => contradiction
  | cons entry entries => exact (Option.some.inj first).symm

theorem openAt_of_scan {whole tail : List UInt8} {read : List JournalEntry}
    (alone : scan whole = ⟨read, whole.length, .clean⟩)
    (torn : tail = [] ∨ scan (whole ++ tail) = ⟨read, whole.length, .cut⟩) (syncs : Bool) :
    DurableTables.openAt (.file (header ++ (whole ++ tail))) syncs =
      (.file (header ++ whole), .ok ⟨Tables.empty.replay (read.map JournalEntry.change),
        ⟨header ++ whole, [], lastSequence read, syncs⟩⟩) := by
  have clean : frames (header ++ whole) = ⟨read, whole.length, .clean⟩ := by
    rw [frames, List.drop_left, alone]
  have long : ¬(header ++ (whole ++ tail)).length < header.length := by simp
  have magic : (header ++ (whole ++ tail)).take journalMagic.length = journalMagic := rfl
  have mended : mend (header ++ (whole ++ tail)) = header ++ whole ∧
      (frames (header ++ (whole ++ tail))).entries = read := by
    rcases torn with rfl | cut
    · rw [List.append_nil, mend, clean]
      exact ⟨rfl, rfl⟩
    · have found : frames (header ++ (whole ++ tail)) = ⟨read, whole.length, .cut⟩ := by
        rw [frames, List.drop_left, cut]
      rw [mend, found, ← List.append_assoc, ← List.length_append]
      exact ⟨List.take_left, rfl⟩
  simp only [DurableTables.openAt, openAt, long, if_false, magic, ne_eq, not_true_eq_false, mended, clean]

theorem openAt_framesOf {entries : List JournalEntry} (readable : ∀ entry ∈ entries, entry.Readable)
    (syncs : Bool) : DurableTables.openAt (.file (header ++ framesOf entries)) syncs =
      (.file (header ++ framesOf entries), .ok ⟨Tables.empty.replay (entries.map JournalEntry.change),
        ⟨header ++ framesOf entries, [], lastSequence entries, syncs⟩⟩) := by
  have alone := frames_whole readable
  rw [frames, List.drop_left] at alone
  have opened := openAt_of_scan alone (.inl rfl) syncs
  rwa [List.append_nil] at opened

def misled (before : List JournalEntry) (bytes : List UInt8) (entry : JournalEntry)
    (after : List JournalEntry) : List UInt8 :=
  header ++ (framesOf before ++ (Frame.withLength bytes entry ++ framesOf after))

def ReachPast (bytes : List UInt8) (entry : JournalEntry) (after : List JournalEntry) : Prop :=
  (wordOf bytes).toNat ≤ maxFrameLength ∧
    (write entry).length + (framesOf after).length < (wordOf bytes).toNat

section

variable {bytes : List UInt8} (four : bytes.length = 4) {entry : JournalEntry} {after : List JournalEntry}

include four

theorem scan_past (past : ReachPast bytes entry after) :
    scan (Frame.withLength bytes entry ++ framesOf after) = ⟨[], 0, .cut⟩ := by
  have cut := Frame.take_past past.1 past.2
  rw [Checksum.wordBytes_wordOf four] at cut
  exact scan_cut (by simp [Frame.withLength]) cut

theorem scan_within (accepted : (Frame.encode? entry).isSome)
    (other : bytes ≠ wordBytes (write entry).length.toUInt32) (within : ¬ReachPast bytes entry after) :
    ∃ fault, scan (Frame.withLength bytes entry ++ framesOf after) = ⟨[], 0, .damaged fault⟩ := by
  have fits := (Frame.encode?_eq_of accepted).1
  rw [← Checksum.wordBytes_wordOf four] at other ⊢
  have apart : (wordOf bytes).toNat ≠ (write entry).length := by
    intro same
    refine other (congrArg wordBytes (UInt32.toNat_inj.mp ?_))
    rw [same]
    exact (Nat.mod_eq_of_lt fits).symm
  obtain ⟨fault, damaged⟩ := Frame.take_within (framed_framesOf after) apart fun bounded =>
    Nat.le_of_not_lt fun past => within ⟨bounded, past⟩
  exact ⟨fault, scan_damaged damaged⟩

theorem openAt_past {before read : List JournalEntry}
    (scanned : ∀ rest, scan (framesOf before ++ rest) = ⟨read ++ (scan rest).entries,
      (framesOf before).length + (scan rest).length, (scan rest).ending⟩)
    (past : ReachPast bytes entry after) (syncs : Bool) :
    DurableTables.openAt (.file (misled before bytes entry after)) syncs =
      (.file (header ++ framesOf before), .ok ⟨Tables.empty.replay (read.map JournalEntry.change),
        ⟨header ++ framesOf before, [], lastSequence read, syncs⟩⟩) := by
  have alone : scan (framesOf before) = ⟨read, (framesOf before).length, .clean⟩ := by
    simpa [scan_nil] using scanned []
  have cut : scan (framesOf before ++ (Frame.withLength bytes entry ++ framesOf after)) =
      ⟨read, (framesOf before).length, .cut⟩ := by
    rw [scanned, scan_past four past, List.append_nil, Nat.add_zero]
  exact openAt_of_scan alone (.inr cut) syncs

end

/-- A journal with a frame of another length opens as if this frame and all behind it had never been there, when the
length reaches past the end of the file; otherwise it does not open and the file stays as it is. -/
theorem openAt_misled {before after : List JournalEntry} {entry : JournalEntry}
    (accepted : ∀ other ∈ before ++ entry :: after, (Frame.encode? other).isSome) {bytes : List UInt8}
    (four : bytes.length = 4) (other : bytes ≠ wordBytes (write entry).length.toUInt32) (syncs : Bool) :
    (ReachPast bytes entry after → ∀ durable,
      DurableTables.openAt (.file (header ++ framesOf before)) syncs =
          (.file (header ++ framesOf before), .ok durable) →
        DurableTables.openAt (.file (misled before bytes entry after)) syncs =
          (.file (header ++ framesOf before), .ok durable)) ∧
    (¬ReachPast bytes entry after ∨
        (DurableTables.openAt (.file (header ++ framesOf before)) syncs).2.isOk = false →
      ∃ fault, DurableTables.openAt (.file (misled before bytes entry after)) syncs =
        (.file (misled before bytes entry after), .error (DurableTables.openFailure (.frame fault)))) := by
  have accepts := accepted entry (by simp)
  obtain ⟨fault, damaged⟩ | ⟨read, scanned⟩ :=
    scan_accepted fun listed member => accepted listed (List.mem_append_left _ member)
  · have closed := openAt_of_ending (damaged []) syncs
    rw [List.append_nil] at closed
    refine ⟨fun _ durable opens => ?_, fun _ => ⟨fault, openAt_of_ending (damaged _) syncs⟩⟩
    cases closed.symm.trans opens
  · have alone : scan (framesOf before) = ⟨read, (framesOf before).length, .clean⟩ := by
      simpa [scan_nil] using scanned []
    have opened := openAt_of_scan alone (.inl rfl) syncs
    rw [List.append_nil] at opened
    constructor
    · intro past durable opens
      rw [← opens, opened]
      exact openAt_past four scanned past syncs
    · intro reported
      obtain ⟨fault, damaged⟩ := scan_within four accepts other
        (reported.resolve_right (by simp [opened, Except.isOk, Except.toBool]))
      exact ⟨fault, openAt_of_ending (by rw [scanned, damaged]) syncs⟩

namespace Sample

def lengthBytes : List UInt8 := wordBytes (write first).length.toUInt32

def lengthened : List UInt8 := lengthBytes.set 1 255

def shortened : List UInt8 := lengthBytes.set 0 0

theorem lengthened_ne : lengthened ≠ lengthBytes := by decide +kernel

theorem reachPast_lengthened : ReachPast lengthened first [second] :=
  ⟨by decide +kernel, by decide +kernel⟩

end Sample

open Journal.Sample

theorem openAt_misled_either :
    DurableTables.openAt (.file (misled [] lengthened first [second])) true =
        (.file header, .ok ⟨.empty, vacant⟩) ∧
      ∃ fault, DurableTables.openAt (.file (misled [] shortened first [second])) true =
        (.file (misled [] shortened first [second]),
          .error (DurableTables.openFailure (.frame fault))) := by
  have accepted : ∀ entry ∈ [] ++ first :: [second], (Frame.encode? entry).isSome := by decide +kernel
  have other : shortened ≠ lengthBytes := by decide +kernel
  have within : ¬ReachPast shortened first [second] := by
    unfold ReachPast
    decide +kernel
  have vacated : DurableTables.openAt (.file (header ++ framesOf [])) true =
      (.file header, .ok ⟨.empty, vacant⟩) :=
    openAt_of_scan scan_nil (.inl rfl) true
  exact ⟨(openAt_misled accepted rfl lengthened_ne true).1 reachPast_lengthened _ vacated,
    (openAt_misled accepted rfl other true).2 (.inl within)⟩

/-- The second frame is whole and undamaged, but lost with the first one. -/
theorem second_lost : lengthened ≠ lengthBytes ∧
    (∃ kept, (DurableTables.openAt (.file (header ++ framesOf [first, second])) true).2 = .ok kept ∧
      kept.tables.feedback.get? opposed.pair = some opposed) ∧
    ∃ kept, DurableTables.openAt (.file (misled [] lengthened first [second])) true = (.file header, .ok kept) ∧
      kept.tables.feedback.get? opposed.pair = none := by
  refine ⟨lengthened_ne, ?_, ?_⟩
  · have short : (write first).length ≤ maxFrameLength ∧ (write second).length ≤ maxFrameLength := by
      decide +kernel
    have readable : ∀ entry ∈ [first, second], entry.Readable := by
      simpa using And.intro (JournalEntry.readable short.1 trivial) (JournalEntry.readable short.2 trivial)
    exact ⟨_, congrArg Prod.snd (openAt_framesOf readable true), by decide +kernel⟩
  · have scanned (rest : List UInt8) : scan (framesOf [] ++ rest) = ⟨[] ++ (scan rest).entries,
        (framesOf []).length + (scan rest).length, (scan rest).ending⟩ := by
      simp [framesOf]
    exact ⟨_, openAt_past rfl scanned reachPast_lengthened true, by decide +kernel⟩

end Journal

end RecordLinkage
