import RecordLinkage.Journal
import RecordLinkage.Store.Tables

/-! Where the tables live: in memory only, or in memory in front of a journal. A durable write is planned,
added to the journal and only then applied, so reading the journal back gives the tables again.
A change without rows is not worth an entry. -/

namespace RecordLinkage

structure DurableTables where
  tables : Tables
  journal : Journal

inductive Store where
  | memory (tables : Tables)
  | durable (kept : DurableTables)

namespace DurableTables

def openFailure (fault : BackendFault) : LinkError := .storage (.backend fault)

def openAt (place : JournalPlace) (syncs : Bool) :
    JournalPlace × Except LinkError DurableTables :=
  match Journal.openAt place syncs with
  | (place, .error fault) => (place, .error (openFailure (.journal fault)))
  | (place, .ok journal) =>
      let found := Journal.frames journal.file
      match found.ending with
      | .damaged fault => (place, .error (openFailure (.frame fault)))
      | _ =>
          (place, .ok ⟨Tables.empty.replay (found.entries.map JournalEntry.change), journal⟩)

def write (durable : DurableTables) (disk : Disk) (now : Instant) (request : Write) :
    Except StorageError Written × DurableTables :=
  let change := durable.tables.plan request
  if change.isEmpty then (.ok (durable.tables.apply change).1, durable)
  else
    match durable.journal.append disk now change with
    | (.error fault, journal) => (.error (.backend (.append fault)), { durable with journal })
    | (.ok _, journal) =>
        let (written, tables) := durable.tables.apply change
        (.ok written, ⟨tables, journal⟩)

end DurableTables

namespace Store

def empty : Store := .memory .empty

def tables : Store → Tables
  | memory tables => tables
  | durable kept => kept.tables

def read (store : Store) (request : Read) : request.Answer := store.tables.read request

def write (store : Store) (disk : Disk) (now : Instant) (request : Write) :
    Except StorageError Written × Store :=
  match store with
  | memory tables =>
      let (written, tables) := tables.write request
      (.ok written, memory tables)
  | durable kept =>
      let (written, kept) := kept.write disk now request
      (written, durable kept)

end Store

end RecordLinkage
