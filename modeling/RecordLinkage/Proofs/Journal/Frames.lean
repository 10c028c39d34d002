import RecordLinkage.Journal

/-! Frames are read back whole, and one that ends too early is told from one that is damaged, wherever it
ends. -/

namespace RecordLinkage

theorem takeWord?_wordBytes (word : UInt32) (rest : List UInt8) :
    takeWord? (wordBytes word ++ rest) = some (word, rest) := by
  simp only [wordBytes, List.cons_append, List.nil_append, takeWord?, Option.some.injEq,
    Prod.mk.injEq, and_true]
  apply UInt32.toBitVec_inj.mp
  apply BitVec.eq_of_getLsbD_eq
  intro bit bound
  simp only [UInt32.toBitVec_or, UInt32.toBitVec_shiftLeft, UInt8.toBitVec_toUInt32,
    UInt32.toBitVec_toUInt8, UInt32.toBitVec_shiftRight, UInt32.toBitVec_ofNat]
  -- Each bit comes from the byte that it falls into.
  by_cases first : bit < 8
  · simp [bound, first, show bit < 16 by omega, show bit < 24 by omega]
  · by_cases second : bit < 16
    · simp [bound, first, second, show bit < 24 by omega, show bit - 8 < 32 by omega,
        show bit - 8 < 8 by omega, show 8 + (bit - 8) = bit by omega]
    · by_cases third : bit < 24
      · simp [bound, first, second, third, show bit - 16 < 8 by omega,
          show bit - 16 < 32 by omega, show ¬bit - 8 < 8 by omega,
          show 16 + (bit - 16) = bit by omega]
      · simp [bound, first, second, third, show bit - 24 < 8 by omega,
          show bit - 24 < 32 by omega, show ¬bit - 8 < 8 by omega, show ¬bit - 16 < 8 by omega,
          show 24 + (bit - 24) = bit by omega]

theorem takeWord?_short {bytes : List UInt8} (short : bytes.length < 4) :
    takeWord? bytes = none := by
  unfold takeWord?
  split
  · simp only [List.length_cons] at short
    omega
  · rfl

structure JournalEntry.Readable (entry : JournalEntry) : Prop where
  length : (Form.write entry).length ≤ maxFrameLength
  read : (Form.read? (Form.write entry) : Option JournalEntry) = some entry

instance (entry : JournalEntry) : Decidable entry.Readable :=
  decidable_of_iff (_ ∧ _) ⟨fun both => ⟨both.1, both.2⟩, fun readable => ⟨readable.1, readable.2⟩⟩

namespace Frame

def of (entry : JournalEntry) : List UInt8 := ofPayload (Form.write entry)

theorem encode?_eq {entry : JournalEntry} (readable : entry.Readable) :
    encode? entry = some (of entry) := by
  have length := readable.length
  simp only [encode?, of]
  rw [if_pos]
  simp only [maxFrameLength] at length
  omega

theorem length_ofPayload (payload : List UInt8) : (ofPayload payload).length = payload.length + 9 := by
  simp [ofPayload, wordBytes]

theorem toNat_length {payload : List UInt8} (bound : payload.length ≤ maxFrameLength) :
    payload.length.toUInt32.toNat = payload.length := by
  simp only [maxFrameLength] at bound
  exact Nat.mod_eq_of_lt (by omega)

theorem take_ofPayload {payload : List UInt8} (bound : payload.length ≤ maxFrameLength)
    (bytes : List UInt8) :
    take (frameVersion :: (wordBytes payload.length.toUInt32 ++ bytes)) =
      if bytes.length < payload.length then .cut
      else (takeWord? (bytes.drop payload.length)).elim .cut fun found =>
        takePayload (bytes.take payload.length) found.1 found.2 := by
  have fits : ¬maxFrameLength < payload.length := by omega
  simp only [take, takeWord?_wordBytes, toNat_length bound, ne_eq, not_true_eq_false, if_false, fits]
  split
  · rfl
  · cases takeWord? (bytes.drop payload.length) <;> rfl

theorem take_of {entry : JournalEntry} (readable : entry.Readable) (rest : List UInt8) :
    take (of entry ++ rest) = .whole entry rest := by
  have front : of entry ++ rest = frameVersion :: (wordBytes (Form.write entry).length.toUInt32 ++
      (Form.write entry ++ (wordBytes (checksum (Form.write entry)) ++ rest))) := by
    simp [of, ofPayload]
  rw [front, take_ofPayload readable.length, if_neg (by simp), List.drop_left, takeWord?_wordBytes,
    List.take_left]
  simp [takePayload, readable.read]

/-- A frame whose length is there, but that lacks more bytes than are behind it, whatever these are. -/
theorem take_unfinished {payload : List UInt8} (bound : payload.length ≤ maxFrameLength) {count : Nat}
    (started : 5 ≤ count) {rest : List UInt8}
    (unfinished : count + rest.length < (ofPayload payload).length) :
    take ((ofPayload payload).take count ++ rest) = .cut := by
  rw [length_ofPayload] at unfinished
  obtain ⟨room, rfl⟩ : ∃ room, count = room + 4 + 1 := ⟨count - 5, by omega⟩
  have front : (ofPayload payload).take (room + 4 + 1) ++ rest = frameVersion ::
      (wordBytes payload.length.toUInt32 ++
        ((payload ++ wordBytes (checksum payload)).take room ++ rest)) := by
    have whole : ofPayload payload = frameVersion :: (wordBytes payload.length.toUInt32 ++
        (payload ++ wordBytes (checksum payload))) := by
      simp [ofPayload]
    rw [whole, List.take_succ_cons, List.take_append]
    simp [wordBytes]
  have unchecked : (((payload ++ wordBytes (checksum payload)).take room ++ rest).drop
      payload.length).length < 4 := by
    simp only [List.length_drop, List.length_take, List.length_append, wordBytes, List.length_cons,
      List.length_nil]
    omega
  rw [front, take_ofPayload bound, takeWord?_short unchecked, Option.elim_none, ite_self]

/-- A frame that ends too early, but not before its first byte. -/
theorem take_torn {payload : List UInt8} (bound : payload.length ≤ maxFrameLength) {count : Nat}
    (some : 0 < count) (torn : count < (ofPayload payload).length) :
    take ((ofPayload payload).take count) = .cut := by
  by_cases early : count < 5
  · -- The length is not there.
    obtain ⟨rest, rfl⟩ : ∃ rest, count = rest + 1 := ⟨count - 1, by omega⟩
    have front : ofPayload payload = frameVersion :: (wordBytes payload.length.toUInt32 ++
        (payload ++ wordBytes (checksum payload))) := by
      simp [ofPayload]
    rw [front, List.take_succ_cons, take, takeWord?_short]
    · simp
    · simp only [List.length_take]
      omega
  · rw [← List.append_nil (List.take count _)]
    exact take_unfinished bound (Nat.le_of_not_lt early) (by simpa using torn)

end Frame

namespace Journal

def framesOf (entries : List JournalEntry) : List UInt8 := entries.flatMap Frame.of

theorem scan_of {entry : JournalEntry} (readable : entry.Readable) (rest : List UInt8) :
    scan (Frame.of entry ++ rest) =
      ⟨entry :: (scan rest).entries, (Frame.of entry).length + (scan rest).length,
        (scan rest).ending⟩ := by
  have filled : Frame.of entry ++ rest ≠ [] := by simp [Frame.of, Frame.ofPayload]
  rw [scan, if_neg filled]
  split
  · rename_i cut
    rw [Frame.take_of readable] at cut
    contradiction
  · rename_i damaged
    rw [Frame.take_of readable] at damaged
    contradiction
  · rename_i whole
    rw [Frame.take_of readable] at whole
    simp only [Frame.Taken.whole.injEq] at whole
    obtain ⟨rfl, rfl⟩ := whole
    simp only [List.length_append, Scan.mk.injEq, and_true, true_and]
    omega

theorem scan_framesOf {entries : List JournalEntry} (readable : ∀ entry ∈ entries, entry.Readable)
    (rest : List UInt8) :
    scan (framesOf entries ++ rest) =
      ⟨entries ++ (scan rest).entries, (framesOf entries).length + (scan rest).length,
        (scan rest).ending⟩ := by
  induction entries with
  | nil => simp [framesOf]
  | cons entry entries ih =>
      have first := scan_of (readable entry (.head _)) (framesOf entries ++ rest)
      rw [ih fun other listed => readable other (.tail _ listed)] at first
      simp only [framesOf, List.flatMap_cons, List.append_assoc, List.length_append] at first ⊢
      rw [first, Nat.add_assoc]
      rfl

theorem scan_nil : scan [] = ⟨[], 0, .clean⟩ := by
  rw [scan, if_pos rfl]

theorem scan_cut {bytes : List UInt8} (filled : bytes ≠ []) (cut : Frame.take bytes = .cut) :
    scan bytes = ⟨[], 0, .cut⟩ := by
  rw [scan, if_neg filled]
  split
  · rfl
  · rename_i damaged
    rw [cut] at damaged
    contradiction
  · rename_i whole
    rw [cut] at whole
    contradiction

theorem scan_torn {payload : List UInt8} (bound : payload.length ≤ maxFrameLength) {count : Nat}
    (some : 0 < count) (torn : count < (Frame.ofPayload payload).length) :
    scan ((Frame.ofPayload payload).take count) = ⟨[], 0, .cut⟩ := by
  refine scan_cut (fun none => ?_) (Frame.take_torn bound some torn)
  have length := congrArg List.length none
  simp only [List.length_take, List.length_nil] at length
  omega

end Journal

end RecordLinkage
