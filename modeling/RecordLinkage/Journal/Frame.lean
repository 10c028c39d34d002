import RecordLinkage.Error
import RecordLinkage.Journal.Checksum
import RecordLinkage.Store.Change

/-! Journal entries and their frames. A frame is a version byte, the length of the payload in four bytes,
the payload, and its checksum in four bytes; numbers have their lowest byte first, and the payload is
the JSON text of an entry. -/

namespace RecordLinkage

structure JournalEntry where
  sequence : UInt64
  writtenAt : Instant
  change : Change
deriving DecidableEq

open Form

instance : Form UInt64 := ⟨fun word => Json.ofNat word.toNat, fun json =>
  json.word64?.map Nat.toUInt64⟩

instance : Form JournalEntry where
  toJson entry := Json.ofRecord [
    ("sequence", toJson entry.sequence),
    ("timestamp", toJson entry.writtenAt),
    ("kind", toJson entry.change)]
  ofJson? json := do
    match ← json.record? ["sequence", "timestamp", "kind"] with
    | [sequence, writtenAt, change] =>
        return ⟨← required? sequence, ← required? writtenAt, ← required? change⟩
    | _ => none

def wordBytes (word : UInt32) : List UInt8 :=
  [word.toUInt8, (word >>> 8).toUInt8, (word >>> 16).toUInt8, (word >>> 24).toUInt8]

def takeWord? : List UInt8 → Option (UInt32 × List UInt8)
  | a :: b :: c :: d :: rest =>
      some (a.toUInt32 ||| b.toUInt32 <<< 8 ||| c.toUInt32 <<< 16 ||| d.toUInt32 <<< 24, rest)
  | _ => none

namespace Frame

def ofPayload (payload : List UInt8) : List UInt8 :=
  frameVersion :: wordBytes payload.length.toUInt32 ++ payload ++ wordBytes (checksum payload)

def encode? (entry : JournalEntry) : Option (List UInt8) :=
  let payload := Form.write entry
  if payload.length < 2 ^ 32 then some (ofPayload payload) else none

inductive Taken where
  | whole (entry : JournalEntry) (rest : List UInt8)
  | cut
  | damaged (fault : FrameFault)

def takePayload (payload : List UInt8) (stored : UInt32) (rest : List UInt8) : Taken :=
  if stored ≠ checksum payload then .damaged (.checksum stored (checksum payload))
  else match (Form.read? payload : Option JournalEntry) with
    | some entry => .whole entry rest
    | none => .damaged .payload

/-- The first frame. Its version and its length are looked at as soon as they are there. -/
def take : List UInt8 → Taken
  | [] => .cut
  | version :: rest =>
      if version ≠ frameVersion then .damaged (.version version)
      else match takeWord? rest with
        | none => .cut
        | some (length, rest) =>
            if maxFrameLength < length.toNat then .damaged (.tooLong length.toNat)
            else if rest.length < length.toNat then .cut
            else match takeWord? (rest.drop length.toNat) with
              | none => .cut
              | some (stored, after) => takePayload (rest.take length.toNat) stored after

structure Parts where
  version : UInt8
  payload : List UInt8
  checksum : UInt32

def Parts.isSound (parts : Parts) : Bool := parts.checksum = RecordLinkage.checksum parts.payload

def split? : List UInt8 → Option (Parts × List UInt8)
  | [] => none
  | version :: rest => do
      let (length, rest) ← takeWord? rest
      let (stored, after) ← takeWord? (rest.drop length.toNat)
      return (⟨version, rest.take length.toNat, stored⟩, after)

def splitWithin : Nat → List UInt8 → List Parts
  | 0, _ => []
  | count + 1, bytes =>
      match split? bytes with
      | some (parts, rest) => parts :: splitWithin count rest
      | none => []

def split (bytes : List UInt8) : List Parts := splitWithin bytes.length bytes

theorem takeWord?_length {bytes rest : List UInt8} {word : UInt32}
    (taken : takeWord? bytes = some (word, rest)) : bytes.length = rest.length + 4 := by
  unfold takeWord? at taken
  split at taken
  · simp only [Option.some.injEq, Prod.mk.injEq] at taken
    simp [← taken.2]
  · contradiction

/-- A frame takes something off the front. -/
theorem length_rest_lt {bytes rest : List UInt8} {entry : JournalEntry}
    (whole : take bytes = .whole entry rest) : rest.length < bytes.length := by
  unfold take at whole
  split at whole
  · contradiction
  · rename_i version tail
    split at whole
    · contradiction
    · split at whole
      · contradiction
      · rename_i length body start
        have front := takeWord?_length start
        split at whole
        · contradiction
        · split at whole
          · contradiction
          · split at whole
            · contradiction
            · rename_i stored after finish
              have back := takeWord?_length finish
              unfold takePayload at whole
              split at whole
              · contradiction
              · split at whole
                · simp only [Taken.whole.injEq] at whole
                  simp only [List.length_drop, List.length_cons] at *
                  rw [← whole.2]
                  omega
                · contradiction

end Frame

end RecordLinkage
