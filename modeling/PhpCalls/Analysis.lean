import PhpCalls.Cache
import PhpCalls.Config
import PhpCalls.Facts.File
import PhpCalls.Ignore.Discovery
import PhpCalls.Resolve.Project

set_option autoImplicit false

/-!
# Analysing a project

Source files are found, read or taken from the cache, and resolved.

## Main definitions

* `Project`: a directory and its settings.
* `Disk.readFacts`, `Disk.readAll`: the facts of one file, and of several.
* `Project.discover`, `Project.read`, `Project.analyse`: the steps of an analysis.
-/

namespace PhpCalls

/-! ## Reading files -/

/-- The facts of the file at a path. Bytes that are no text are read as replacement characters. -/
def Disk.readFacts (d : Disk) (path : String) : Except FileFault FileFacts :=
  (d.read path).map fun b => FileFacts.ofSource (Text.ofBytesLossy b)

/-- The message for a file that could not be read. -/
def FileFault.readMessage (f : FileFault) : String := "Failed to read file: " ++ f.message

/-- The facts of several files by their paths below a root, and the files that could not be read. -/
def Disk.readAll (d : Disk) (root : String) (paths : List String) :
    ProjectFacts × List ReadFailure :=
  let outcomes := paths.map fun p => (Path.relative root p, d.readFacts p)
  (.ofList (outcomes.filterMap fun (p, r) => r.toOption.map fun f => (p, f)),
   outcomes.filterMap fun (p, r) =>
    match r with
    | .ok _ => none
    | .error e => some { path := p, error := e.readMessage })

/-! ## Projects -/

/-- A directory and the settings of its analysis. -/
structure Project where
  /-- The absolute path of the directory. -/
  root : String
  settings : Settings

/-- Facts as they were read. -/
structure ReadOutcome where
  files : ProjectFacts
  failures : List ReadFailure
  /-- The facts come from the cache. -/
  fromCache : Bool

/-- What an analysis found. -/
structure Analysis where
  root : String
  files : ProjectFacts
  failures : List ReadFailure
  tally : Tally
  graph : CallGraph
  /-- The number of files that were found. -/
  discovered : Nat
  fromCache : Bool

namespace Project

/-- The project in a directory. -/
def ofPath (path : String) (settings : Settings) : Job Project := do
  let d ← get
  match d.canonical? path with
  | none => throw (.projectMissing path)
  | some root =>
    if d.isDir root then return { root, settings } else throw (.projectNotDirectory root)

/-- The cache of the project. -/
def cache (p : Project) : Cache :=
  .ofProject (Path.join p.root p.settings.cacheDir) p.settings.projectName p.root
    p.settings.excludeDirs

/-- The source files of the project. -/
def discover (p : Project) : Job (List String) := do
  let options : DiscoverOptions :=
    { ignorePaths := p.settings.ignorePaths, excludeDirs := p.settings.excludeDirs }
  match (← get).discover p.root options with
  | .ok paths => return paths
  | .error .inaccessible => throw (.projectInaccessible p.root)
  | .error .badPattern => throw .pattern

/-- The facts of files, read anew. -/
def readAnew (p : Project) (paths : List String) : Job ReadOutcome := do
  let (files, failures) := (← get).readAll p.root paths
  return { files, failures, fromCache := false }

/-- The facts of files, from the cache if it agrees with them; otherwise they are read and kept. -/
def read (p : Project) (paths : List String) : Job ReadOutcome := do
  if p.settings.useCache then
    let checksums := (← get).checksums p.root paths
    let kept ← p.cache.load
    match kept.filter fun k => k.2.agrees checksums with
    | some (files, stamp) => return { files, failures := stamp.failures, fromCache := true }
    | none =>
      let outcome ← p.readAnew paths
      p.cache.save outcome.files (.now checksums outcome.failures)
      return outcome
  else p.readAnew paths

/-- What follows from facts that were read. -/
def conclude (p : Project) (discovered : Nat) (outcome : ReadOutcome) : Analysis :=
  let resolved := outcome.files.resolve p.settings.resolve
  { root := p.root
    files := resolved.files
    failures := outcome.failures
    tally := resolved.tally
    graph := resolved.graph
    discovered
    fromCache := outcome.fromCache }

/-- The analysis of the project. -/
def analyse (p : Project) : Job Analysis := do
  let paths ← p.discover
  return p.conclude paths.length (← p.read paths)

end Project

end PhpCalls
