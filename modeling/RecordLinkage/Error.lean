import RecordLinkage.Entity
import RecordLinkage.Decimal.Shortest

/-! What can go wrong, as causes; `message` is the only place where they are put into words. -/

namespace RecordLinkage

inductive FrameFault where
  | version (found : UInt8)
  | tooLong (length : Nat)
  | checksum (stored computed : UInt32)
  | payload
deriving DecidableEq

inductive JournalFault where
  | notAFile
  | magic (found : List UInt8)
deriving DecidableEq

inductive AppendFault where
  | tooLong
  | unwritten
  | unsynced
deriving DecidableEq

inductive BackendFault where
  | other (text : String)
  | locked
  | journal (fault : JournalFault)
  | frame (fault : FrameFault)
  | append (fault : AppendFault)
deriving DecidableEq

inductive StorageError where
  | duplicateKey (text : String)
  | backend (fault : BackendFault)
  | serialization (text : String)
  | connection (text : String)
deriving DecidableEq

inductive ValidationError where
  | scoreOutOfRange (score : Double)
  | invalidConfig (field reason : String)
  | clusterNotLocked (cluster : Id)
  | memberNotLocked (member : EntityKey)
deriving DecidableEq

inductive ExecutionError where
  | unknownEntitySet (set : Id)
  | search (text : String)
  | loader (text : String)
  | scorer (text : String)
  | catalog (text : String)
  | lockContention (attempts : Nat)
  | lockPoisoned (context : String)
deriving DecidableEq

inductive LinkError where
  | validation (error : ValidationError)
  | execution (error : ExecutionError)
  | storage (error : StorageError)
  | internal (text : String)
deriving DecidableEq

def journalMagic : List UInt8 := [75, 76, 78, 75]

def frameVersion : UInt8 := 1

def maxFrameLength : Nat := 64 * 1024 * 1024

def bytesText (bytes : List UInt8) : String :=
  "[" ++ ", ".intercalate (bytes.map fun byte => toString byte.toNat) ++ "]"

def FrameFault.message : FrameFault → String
  | version found =>
      "unsupported frame version " ++ toString found.toNat ++
        " (expected " ++ toString frameVersion.toNat ++ ")"
  | tooLong length =>
      "frame size " ++ toString length ++ " exceeds maximum " ++ toString maxFrameLength
  | checksum stored computed =>
      "CRC mismatch: stored=" ++ String.ofList (hexDigits 8 stored.toNat) ++
        ", computed=" ++ String.ofList (hexDigits 8 computed.toNat)
  | payload => "deserialization failed: malformed entry"

def JournalFault.message : JournalFault → String
  | notAFile => "Is a directory (os error 21)"
  | magic found =>
      "invalid magic bytes: expected " ++ bytesText journalMagic ++ ", got " ++ bytesText found

def AppendFault.message : AppendFault → String
  | tooLong => "frame larger than 4 GiB"
  | unwritten => "No space left on device (os error 28)"
  | unsynced => "Input/output error (os error 5)"

def BackendFault.message : BackendFault → String
  | other text => text
  | locked => "failed to acquire lock: linking database is locked by another process"
  | journal fault => "failed to open WAL: " ++ fault.message
  | frame fault => "corrupted WAL entry: " ++ fault.message
  | append fault => "WAL append failed: " ++ fault.message

def StorageError.message : StorageError → String
  | duplicateKey text => "Duplicate key: " ++ text
  | backend fault => "Storage backend error: " ++ fault.message
  | serialization text => "Serialization error: " ++ text
  | connection text => "Connection error: " ++ text

def ValidationError.message : ValidationError → String
  | scoreOutOfRange score => "Match score " ++ score.text ++ " is out of range [0.0, 1.0]"
  | invalidConfig field reason => "Invalid configuration for '" ++ field ++ "': " ++ reason
  | clusterNotLocked cluster =>
      "Cluster " ++ cluster.text ++ " is not locked by this transaction"
  | memberNotLocked member =>
      "Entity " ++ member.text ++ " is not locked by this transaction"

def ExecutionError.message : ExecutionError → String
  | unknownEntitySet set => "Entity set not found: " ++ set.text
  | search text => "Search failed: " ++ text
  | loader text => "Data loader failed: " ++ text
  | scorer text => "Scorer failed: " ++ text
  | catalog text => "Entity set catalog failed: " ++ text
  | lockContention attempts =>
      "Cluster set kept changing while locking after " ++ toString attempts ++ " attempts"
  | lockPoisoned context => "Poisoned lock: " ++ context

namespace LinkError

def message : LinkError → String
  | validation error => "Validation error: " ++ error.message
  | execution error => "Execution error: " ++ error.message
  | storage error => "Storage error: " ++ error.message
  | internal text => "Internal error: " ++ text

def kindName : LinkError → String
  | validation (.scoreOutOfRange _) => "ScoreOutOfRange"
  | validation (.invalidConfig _ _) => "InvalidConfig"
  | validation (.clusterNotLocked _) => "ClusterNotLocked"
  | validation (.memberNotLocked _) => "MemberNotLocked"
  | execution (.unknownEntitySet _) => "UnknownEntitySet"
  | execution (.search _) => "Search"
  | execution (.loader _) => "Loader"
  | execution (.scorer _) => "Scorer"
  | execution (.catalog _) => "Catalog"
  | execution (.lockContention _) => "LockContention"
  | execution (.lockPoisoned _) => "LockPoisoned"
  | storage (.duplicateKey _) => "DuplicateKey"
  | storage (.backend _) => "BackendError"
  | storage (.serialization _) => "SerializationError"
  | storage (.connection _) => "ConnectionError"
  | internal _ => "Internal"

def isValidation : LinkError → Bool
  | validation _ => true
  | _ => false

def isExecution : LinkError → Bool
  | execution _ => true
  | _ => false

def isStorage : LinkError → Bool
  | storage _ => true
  | _ => false

def isRetryable : LinkError → Bool
  | execution (.search _) => true
  | execution (.loader _) => true
  | execution (.catalog _) => true
  | execution (.lockContention _) => true
  | storage (.connection _) => true
  | _ => false

end LinkError

end RecordLinkage
