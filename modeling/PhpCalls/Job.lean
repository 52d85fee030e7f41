import PhpCalls.Files.Disk

set_option autoImplicit false

/-!
# Work on a disk

Analyses and commands read and write files. They are functions of the disk that give a result or a
fault, and the disk as they leave it; what was written before a fault stays.

## Main definitions

* `Fault`: why some work could not be done, with its message.
* `Job`: work on a disk.
-/

namespace PhpCalls

/-- The two files of a cache. -/
inductive CacheFile where
  | data
  | stamp
deriving DecidableEq, Repr

/-- Why some work could not be done. -/
inductive Fault where
  /-- A file of a cache is there but cannot be read, and why. -/
  | cacheUnreadable (file : CacheFile) {path : String} {reason : FileFault}
  /-- The text of a file of a cache is none of its sort. What is wrong with it is not kept. -/
  | cacheCorrupt (file : CacheFile) {path : String}
  | cacheDirectory
  | read (path : String)
  | write (path : String)
  | create (path : String)
  | remove (path : String)
  | config (path : String)
  /-- The choices cannot be written. -/
  | unwritable
  | projectMissing (path : String)
  | projectNotDirectory (path : String)
  | projectInaccessible (path : String)
  | pattern
  | pathRequired
  | pathUnusable (path : String)
deriving DecidableEq, Repr

namespace Fault

/-- The message for a fault. -/
def message : Fault → String
  | @cacheUnreadable _ path reason => "Failed to read cache file " ++ path ++ ": " ++ reason.message
  | @cacheCorrupt _ path => "Corrupt cache file " ++ path
  | cacheDirectory => "Failed to create cache directory"
  | read path => "Failed to read " ++ path
  | write path => "Failed to write " ++ path
  | create path => "Failed to create " ++ path
  | remove path => "Failed to remove " ++ path
  | config path => "Invalid configuration in " ++ path
  | unwritable => "out-of-range value"
  | projectMissing path => "Project path " ++ path ++ " does not exist"
  | projectNotDirectory path => "Project path " ++ path ++ " is not a directory"
  | projectInaccessible path => "Cannot access project path " ++ path
  | pattern => "error parsing glob"
  | pathRequired => "missing required --project-path <PATH>"
  | pathUnusable path => "project path " ++ path ++ " does not exist or is not a directory"

/-- The fault lies in the contents of a cache. -/
def isOfCache : Fault → Bool
  | cacheUnreadable _ => true
  | cacheCorrupt _ => true
  | _ => false

end Fault

/-- Work on a disk. -/
abbrev Job := ExceptT Fault (StateM Disk)

namespace Job

/-- Reads from the disk; another fault stands for the one of the file. -/
def look {α : Type} (fault : FileFault → Fault) (f : Disk → Except FileFault α) : Job α := do
  match f (← get) with
  | .ok a => return a
  | .error e => throw (fault e)

/-- Changes the disk; another fault stands for the one of the file. -/
def change (fault : Fault) (f : Disk → Except FileFault Disk) : Job Unit := do
  set (← look (fun _ => fault) f)

/-- Writes a text. -/
def writeText (path text : String) : Job Unit :=
  change (.write path) fun d => d.write path (Text.toBytes text)

end Job

end PhpCalls
