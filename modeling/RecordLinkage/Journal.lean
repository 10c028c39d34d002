import RecordLinkage.Journal.Frame

/-! The journal: a header of four magic bytes and a version, then one frame for each change. A frame cut
short at the end of the file is a write that never finished and is taken off when the file is
opened; a damaged frame is left where it is and ends the reading. Frames go through a buffer, which
keeps what the disk did not take of a frame. -/

namespace RecordLinkage

structure Journal where
  file : List UInt8
  buffer : List UInt8
  sequence : UInt64
  syncs : Bool

inductive JournalPlace where
  | vacant
  | file (bytes : List UInt8)
  | directory

/-- How the disk takes one append: all of it, only some bytes, or all of it without the final sync. -/
inductive Disk where
  | sound
  | full (room : Nat)
  | unsynced

namespace Journal

def header : List UInt8 := journalMagic ++ [frameVersion]

inductive Ending where
  | clean
  | cut
  | damaged (fault : FrameFault)
deriving DecidableEq

structure Scan where
  entries : List JournalEntry
  length : Nat
  ending : Ending

def scan (bytes : List UInt8) : Scan :=
  if bytes = [] then ⟨[], 0, .clean⟩
  else match _taken : Frame.take bytes with
    | .cut => ⟨[], 0, .cut⟩
    | .damaged fault => ⟨[], 0, .damaged fault⟩
    | .whole entry rest =>
        let later := scan rest
        ⟨entry :: later.entries, bytes.length - rest.length + later.length, later.ending⟩
termination_by bytes.length
decreasing_by exact Frame.length_rest_lt ‹_›

def frames (file : List UInt8) : Scan := scan (file.drop header.length)

def mend (file : List UInt8) : List UInt8 :=
  let found := frames file
  match found.ending with
  | .cut => file.take (header.length + found.length)
  | _ => file

def lastSequence (entries : List JournalEntry) : UInt64 :=
  match entries.getLast? with
  | some entry => entry.sequence
  | none => 0

/-- Opens the journal and says what stands in its place then. A file too short for its header is
started afresh; the version in a header is not looked at. -/
def openAt (place : JournalPlace) (syncs : Bool) : JournalPlace × Except JournalFault Journal :=
  match place with
  | .directory => (place, .error .notAFile)
  | .vacant => (.file header, .ok ⟨header, [], 0, syncs⟩)
  | .file bytes =>
      if bytes.length < header.length then (.file header, .ok ⟨header, [], 0, syncs⟩)
      else if bytes.take journalMagic.length ≠ journalMagic then
        (place, .error (.magic (bytes.take journalMagic.length)))
      else
        let file := mend bytes
        (.file file, .ok ⟨file, [], lastSequence (frames bytes).entries, syncs⟩)

def bufferSize : Nat := 8192

abbrev Room := Option Nat

def writeThrough (journal : Journal) (room : Room) (bytes : List UInt8) : Nat × Room × Journal :=
  let taken := match room with
    | none => bytes.length
    | some room => min room bytes.length
  (taken, room.map (· - taken), { journal with file := journal.file ++ bytes.take taken })

def flush (journal : Journal) (room : Room) : Bool × Room × Journal :=
  let (taken, room, written) := journal.writeThrough room journal.buffer
  (taken = journal.buffer.length, room,
    { written with buffer := journal.buffer.drop taken })

def close (journal : Journal) : List UInt8 := (journal.flush none).2.2.file

def push (journal : Journal) (room : Room) (bytes : List UInt8) : Bool × Room × Journal :=
  let free := bufferSize - journal.buffer.length
  let (ready, room, journal) :=
    if free < bytes.length then journal.flush room else (true, room, journal)
  if !ready then (false, room, journal)
  else if bytes.length < bufferSize then
    (true, room, { journal with buffer := journal.buffer ++ bytes })
  else
    let (taken, room, journal) := journal.writeThrough room bytes
    (taken = bytes.length, room, journal)

def append (journal : Journal) (disk : Disk) (writtenAt : Instant) (change : Change) :
    Except AppendFault UInt64 × Journal :=
  let sequence := journal.sequence + 1
  match Frame.encode? ⟨sequence, writtenAt, change⟩ with
  | none => (.error .tooLong, journal)
  | some frame =>
      let room : Room := match disk with
        | .full room => some room
        | _ => none
      let (pushed, room, journal) := journal.push room frame
      if !pushed then (.error .unwritten, journal)
      else
        let (flushed, _, journal) := journal.flush room
        if !flushed then (.error .unwritten, journal)
        else match disk, journal.syncs with
          | .unsynced, true => (.error .unsynced, journal)
          | _, _ => (.ok sequence, { journal with sequence := sequence })

end Journal

end RecordLinkage
