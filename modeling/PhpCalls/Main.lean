import PhpCalls.CommandLine.Run
import PhpCalls.Files.Change

set_option autoImplicit false

/-!
# The program

The part of the real disk that a command may look at is read, the command is carried out on it, and
what it changed is written back.

## Main definitions

* `Snapshot.take`: the part of the disk that a command may look at.
* `Snapshot.carryOut`: one change, made on the real disk.
* `main`: the program.
-/

namespace PhpCalls.Snapshot

/-- The files with rules and choices. -/
def ruleFiles : List String := [".ignore", ".gitignore", "exclude", Config.fileName]

/-- The contents of files with this name may be read. -/
def isReadable (name : String) : Bool :=
  ruleFiles.contains name || name.endsWith ".parse.json" || name.endsWith ".meta.json"
    || (Path.extension? name).any fun e => Text.foldCase e = "php"

/-- The bytes of a file. Files that no command reads, or that cannot be read, count as empty. -/
def contentOf (path name : String) : IO ByteArray := do
  if isReadable name then
    try IO.FS.readBinFile path catch _ => return .empty
  else return .empty

/-- The entries of a directory with their sorts; none if it cannot be read. -/
def entriesOf (path : String) : IO (List (String × IO.FS.FileType)) := do
  try
    let found ← ((← IO.currentDir) / path).readDir
    found.toList.mapM fun e => return (e.fileName, (← e.path.symlinkMetadata).type)
  catch _ => return []

/-- A directory with all that is in it. Links are not followed. -/
partial def readDir (path : String) : IO FileTree := do
  let entries ← (← entriesOf path).filterMapM fun (name, sort) => do
    let below := Path.join path name
    match sort with
    | .dir => return some (name, ← readDir below)
    | .file => return some (name, .file (← contentOf below name))
    | _ => return none
  return .ofEntries entries

/-- A directory with the files that are in it. Of a directory in it only the name is known, and of a
repository its own rules. -/
def readFlat (path : String) : IO FileTree := do
  let entries ← (← entriesOf path).filterMapM fun (name, sort) => do
    let below := Path.join path name
    match sort with
    | .dir =>
      if name = ".git" then return some (name, .dir [("info", ← readDir (Path.join below "info"))])
      else return some (name, .emptyDir)
    | .file => return some (name, .file (← contentOf below name))
    | _ => return none
  return .ofEntries entries

/-- The path leads to a directory on the real disk. -/
def isRealDir (path : String) : IO Bool := do ((← IO.currentDir) / path).isDir

/-- The disk with the directory at a path and all that is in it, if it is there. -/
def addDeep (d : Disk) (path : String) : IO Disk := do
  if ← isRealDir path then
    return { d with tree := FileTree.put (← readDir path) d.tree (d.intended path) }
  else return d

/-- The disk with the directory at a path, if it is there and nothing is known of what is in it. -/
def addFlat (d : Disk) (path : String) : IO Disk := do
  let known := (d.tree.get? (d.intended path)).any fun t => !t.entries.isEmpty
  if !known && (← isRealDir path) then
    return { d with tree := FileTree.put (← readFlat path) d.tree (d.intended path) }
  else return d

/-- The disk with the directory at a path and those above it, without what is below them. -/
def addAbove (d : Disk) (path : String) : IO Disk :=
  let position := d.intended path
  ((List.range (position.length + 1)).map fun n => Disk.absolute (position.take n)).foldlM addFlat d

/-- The disk with the cache of a project, which may lie outside of it. -/
def addCache (d : Disk) (projectPath : String) : IO Disk := do
  match ((Config.find projectPath).run.run d).1 with
  | .ok c => addAbove d (Path.join (Disk.absolute (d.intended projectPath)) c.cacheDir)
  | .error _ => return d

/-- The part of the disk that a command may look at. -/
def take (c : CommandLine) : IO Disk := do
  let here := (Path.parts (← IO.currentDir).toString).drop 1
  let d ← addAbove { tree := .emptyDir, here } "."
  match c.command with
  | .init path => addAbove d (path.getD ".")
  | .analyze _ args =>
    match args.projectPath with
    | none => return d
    | some path => addCache (← addDeep (← addAbove d path) path) path

/-- One change, made on the real disk. -/
def carryOut : Change → IO Unit
  | .makeDir p => IO.FS.createDirAll (Disk.absolute p)
  | .write p b => IO.FS.writeBinFile (Disk.absolute p) b
  | .remove p => IO.FS.removeFile (Disk.absolute p)

/-- A command line, carried out on the real disk. -/
def perform (c : CommandLine) : IO UInt32 := do
  let before ← take c
  let (result, after) := c.run.run.run before
  (before.tree.changes after.tree).forM carryOut
  match result with
  | .ok paths =>
    paths.forM fun p => IO.eprintln ("  wrote " ++ p)
    return 0
  | .error fault =>
    IO.eprintln ("Error: " ++ fault.message)
    return 1

end PhpCalls.Snapshot

open PhpCalls in
/-- The program. -/
def main (words : List String) : IO UInt32 := do
  match CommandLine.parse words with
  | .ok c => Snapshot.perform c
  | .error .displayHelp =>
    IO.println CommandLine.usage
    return 0
  | .error .displayVersion =>
    IO.println ("callmap " ++ toolVersion)
    return 0
  | .error fault =>
    IO.eprintln ("error: " ++ fault.message)
    return 2
