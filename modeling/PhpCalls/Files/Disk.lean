import PhpCalls.Files.Tree
import PhpCalls.Text.Utf8

set_option autoImplicit false

/-!
# Disks

A disk is a file tree together with the working directory, from which relative paths start. A path
is followed part by part: a part that is missing, or that goes on below a file, is a fault. As file
trees have no symbolic links, `..` leads back to the directory that the part before it was found in,
and an absolute path without `..` names the directories above its file.

## Main definitions

* `FileFault`: why a file could not be had, with its message.
* `Disk`: a file tree and a working directory.
* `Disk.locate`: the position that a path leads to.
* `Disk.read`, `Disk.write`, `Disk.makeDirs`, `Disk.removeFile`: operations on files.
-/

namespace PhpCalls

/-- Why a file could not be had. -/
inductive FileFault where
  | missing
  | notADirectory
  | isADirectory
  /-- The bytes are no text. -/
  | notText
deriving DecidableEq, Repr

/-- The message for a fault. -/
def FileFault.message : FileFault → String
  | missing => "No such file or directory (os error 2)"
  | notADirectory => "Not a directory (os error 20)"
  | isADirectory => "Is a directory (os error 21)"
  | notText => "stream did not contain valid UTF-8"

/-- A file tree and the working directory. -/
structure Disk where
  /-- What lies below the root. -/
  tree : FileTree
  /-- The working directory. -/
  here : List String

namespace Disk

/-! ## Following paths -/

/-- The directory at a position. -/
def directoryAt (d : Disk) (position : List String) : Except FileFault FileTree :=
  match d.tree.get? position with
  | some (.dir es) => .ok (.dir es)
  | some (.file _) => .error .notADirectory
  | none => .error .missing

/-- The position to which parts lead from a position. -/
def follow (d : Disk) (position : List String) : List String → Except FileFault (List String)
  | [] => .ok position
  | p :: ps => do
    let t ← d.directoryAt position
    if Path.isSilent p then follow d position ps
    else if p = ".." then follow d position.dropLast ps
    else if (t.child? p).isSome then follow d (position ++ [p]) ps
    else .error .missing

/-- Where a path starts, and its parts. -/
def start (d : Disk) (path : String) : List String × List String :=
  if Path.isAbsolute path then ([], (Text.splitAt '/' path).drop 1)
  else (d.here, Text.splitAt '/' path)

/-- The position that a path leads to if every part of it is there. -/
def intended (d : Disk) (path : String) : List String :=
  let (position, parts) := d.start path
  parts.foldl (fun ps p =>
    if Path.isSilent p then ps else if p = ".." then ps.dropLast else ps ++ [p])
    position

/-- The position that a path leads to. -/
def locate (d : Disk) (path : String) : Except FileFault (List String) :=
  if path = "" then .error .missing
  else
    let (position, parts) := d.start path
    d.follow position parts

/-- What a path leads to. -/
def find (d : Disk) (path : String) : Except FileFault FileTree := do
  let position ← d.locate path
  match d.tree.get? position with
  | some t => .ok t
  | none => .error .missing

/-- The path leads to something. -/
def has (d : Disk) (path : String) : Bool := (d.find path).toOption.isSome

/-- The path leads to a directory. -/
def isDir (d : Disk) (path : String) : Bool := (d.find path).toOption.any FileTree.isDir

/-- A position as an absolute path. -/
def absolute (position : List String) : String := "/" ++ Text.joinWith "/" position

/-- The absolute path, without `.` and `..`, of what a path leads to. -/
def canonical? (d : Disk) (path : String) : Option String := (d.locate path).toOption.map absolute

/-! ## Reading -/

/-- The bytes of the file at a path. -/
def read (d : Disk) (path : String) : Except FileFault ByteArray := do
  match ← d.find path with
  | .file b => .ok b
  | .dir _ => .error .isADirectory

/-- The text of the file at a path. -/
def readText (d : Disk) (path : String) : Except FileFault String := do
  match Text.ofBytes? (← d.read path) with
  | some s => .ok s
  | none => .error .notText

/-! ## Writing -/

/-- The position of a file that may be made or replaced at a path: the directory is there, and the
path ends in a name. -/
def locateNew (d : Disk) (path : String) : Except FileFault (List String) := do
  let (position, parts) := d.start path
  match parts.getLast? with
  | none => .error .missing
  | some name =>
    let above ← d.follow position parts.dropLast
    let t ← d.directoryAt above
    if Path.isSilent name || name = ".." then .error .isADirectory
    else if (t.child? name).any FileTree.isDir then .error .isADirectory
    else .ok (above ++ [name])

/-- Writes a file. -/
def write (d : Disk) (path : String) (content : ByteArray) : Except FileFault Disk := do
  if path = "" then .error .missing
  else
    let position ← d.locateNew path
    return { d with tree := FileTree.put (.file content) d.tree position }

/-- The tree with directories along the parts from a position, where nothing is. -/
def makeAlong (t : FileTree) (position : List String) : List String → Except FileFault FileTree
  | [] => .ok t
  | p :: ps =>
    if Path.isSilent p then makeAlong t position ps
    else if p = ".." then makeAlong t position.dropLast ps
    else
      let next := position ++ [p]
      match t.get? next with
      | some (.dir _) => makeAlong t next ps
      | some (.file _) => .error .notADirectory
      | none => makeAlong (FileTree.put .emptyDir t next) next ps

/-- Makes a directory and the directories above it, where they are missing. -/
def makeDirs (d : Disk) (path : String) : Except FileFault Disk := do
  let (position, parts) := d.start path
  let tree ← makeAlong d.tree position parts
  return { d with tree }

/-- Removes a file. -/
def removeFile (d : Disk) (path : String) : Except FileFault Disk := do
  let position ← d.locate path
  match d.tree.get? position with
  | some (.file _) => return { d with tree := d.tree.remove position }
  | some (.dir _) => .error .isADirectory
  | none => .error .missing

end Disk

end PhpCalls
