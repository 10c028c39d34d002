import Std.Data.ExtTreeMap
import Std.Data.ExtTreeSet

/-! Exclusive use of directories: whoever opens a database locks a file in its directory, and nobody
waits for that lock. A directory may be named by many paths, and all of them mean one lock. -/

namespace RecordLinkage

/-- The names on the way from the root directory; those above the root start with two dots. -/
abbrev Directory := List String

namespace Directory

def parent (directory : Directory) : Directory :=
  if directory.all (· = "..") then directory ++ [".."] else directory.dropLast

def enter (directory : Directory) (part : String) : Directory :=
  if part = "" ∨ part = "." then directory
  else if part = ".." then directory.parent
  else directory ++ [part]

end Directory

structure Directories where
  existing : Std.ExtTreeSet Directory
  locked : Std.ExtTreeMap String Directory

inductive DirectoryFault where
  | notFound
  | wouldBlock
deriving DecidableEq

namespace Directories

def lockFileName : String := "kyrolink.lock"

def empty : Directories := ⟨∅, ∅⟩

def holds (directories : Directories) (directory : Directory) : Bool :=
  directory.all (· = "..") || directories.existing.contains directory

def resolve? (directories : Directories) (path : String) : Option Directory :=
  (path.splitOn "/").foldlM
    (fun directory part =>
      let next := directory.enter part
      if directories.holds next then some next else none)
    []

def createFrom (directories : Directories) (above : Directory) : List String → Directories
  | [] => directories
  | part :: parts =>
      let directory := above.enter part
      createFrom { directories with existing := directories.existing.insert directory } directory
        parts

/-- Creates every directory on a path that does not exist. A directory cannot be created under a name
that ends in a single dot. -/
def create (directories : Directories) (path : String) : Directories :=
  let parts := (path.splitOn "/").filter (· ≠ "")
  let names := parts.filter (· ≠ ".")
  directories.createFrom [] (if parts.getLast? = some "." then names.dropLast else names)

def acquire (directories : Directories) (holder path : String) :
    Except DirectoryFault Directories :=
  match directories.resolve? path with
  | none => .error .notFound
  | some directory =>
      if directories.locked.values.contains directory then .error .wouldBlock
      else .ok { directories with locked := directories.locked.insert holder directory }

def release (directories : Directories) (holder : String) : Bool × Directories :=
  (directories.locked.contains holder,
    { directories with locked := directories.locked.erase holder })

end Directories

end RecordLinkage
