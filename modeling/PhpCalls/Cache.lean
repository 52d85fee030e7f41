import PhpCalls.Ident
import PhpCalls.Job
import PhpCalls.Json.Reader
import PhpCalls.Json.Writer
import PhpCalls.Record.Codec

set_option autoImplicit false

/-!
# Facts kept between analyses

The facts of the files of a project are kept in one file, and beside it a stamp with the version and
the checksums of the sources. They are used again only if version and checksums still agree.

## Main definitions

* `Cache`: where the two files lie.
* `Cache.load`, `Cache.save`, `Cache.clear`: work on the two files.
* `CacheStamp.agrees`: the stamp fits the sources.
* `checksumOf`, `Disk.checksums`: the checksums of one source and of several.
-/

namespace PhpCalls

/-- The version that a stamp bears. -/
def toolVersion : String := "0.1.0"

/-- Where the files of a cache lie. -/
structure Cache where
  /-- The directory. -/
  dir : String
  /-- The file with the facts. -/
  dataPath : String
  /-- The file with the stamp. -/
  stampPath : String

namespace Cache

/-- The part of the names that tells apart projects of one name: it depends on the root and on the
excluded fragments. -/
def key (root : String) (excludeDirs : List String) : String :=
  shortHash (root ++ "|" ++ Text.joinWith "," excludeDirs)

/-- The cache of a project. -/
def ofProject (dir projectName root : String) (excludeDirs : List String) : Cache :=
  let stem := projectName ++ "." ++ key root excludeDirs
  { dir
    dataPath := Path.join dir (stem ++ ".parse.json")
    stampPath := Path.join dir (stem ++ ".meta.json") }

/-- The path of one of the files. -/
def path (c : Cache) : CacheFile → String
  | .data => c.dataPath
  | .stamp => c.stampPath

/-- The text of one of the files; nothing if it is missing or blank. -/
def textOf (c : Cache) (file : CacheFile) : Job (Option String) := do
  if (← get).has (c.path file) then
    let text ← Job.look (@Fault.cacheUnreadable file (c.path file)) fun d =>
      d.readText (c.path file)
    return if Text.trim text = "" then none else some text
  else return none

/-- What the text of one of the files says. -/
def decode {α : Type} (c : Cache) (file : CacheFile) (read : Decoder α) (text : String) : Job α :=
  match (Json.parse text).bind read with
  | some a => return a
  | none => throw (@Fault.cacheCorrupt file (c.path file))

/-- The facts and the stamp; nothing if one of the files is missing or blank. -/
def load (c : Cache) : Job (Option (ProjectFacts × CacheStamp)) := do
  match ← c.textOf .data with
  | none => return none
  | some data =>
    match ← c.textOf .stamp with
    | none => return none
    | some stamp =>
      let files ← c.decode .data ProjectFacts.ofJson? data
      let stamp ← c.decode .stamp CacheStamp.ofJson? stamp
      return some (files, stamp)

/-- Writes the stamp and then the facts. -/
def save (c : Cache) (files : ProjectFacts) (stamp : CacheStamp) : Job Unit := do
  Job.change .cacheDirectory fun d => d.makeDirs c.dir
  Job.writeText c.stampPath stamp.toJson.pretty
  Job.writeText c.dataPath files.toJson.compact

/-- Removes one of the files, if it is there. -/
def clearFile (path : String) : Job Unit := do
  if (← get).has path then Job.change (.remove path) fun d => d.removeFile path

/-- Removes both files. -/
def clear (c : Cache) : Job Unit := do
  clearFile c.dataPath
  clearFile c.stampPath

end Cache

/-- The stamp of facts read now. -/
def CacheStamp.now (checksums : Dict String) (failures : List ReadFailure) : CacheStamp :=
  { version := toolVersion, checksums, failures }

/-- The stamp fits the checksums of the sources and this version. -/
def CacheStamp.agrees (s : CacheStamp) (current : Dict String) : Bool :=
  s.version = toolVersion && s.checksums = current

/-- The checksum of a file. -/
def checksumOf (path : String) : Job String := do
  return checksum (← Job.look (fun _ => .read path) fun d => d.read path)

/-- The checksum of a file, if it can be read. -/
def Disk.checksum? (d : Disk) (path : String) : Option String :=
  (d.read path).toOption.map checksum

/-- The checksums of the files that can be read, by their paths below a root. -/
def Disk.checksums (d : Disk) (root : String) (paths : List String) : Dict String :=
  .ofList (paths.filterMap fun p => (d.checksum? p).map fun sum => (Path.relative root p, sum))

end PhpCalls
