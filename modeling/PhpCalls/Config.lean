import PhpCalls.Files.Disk
import PhpCalls.Resolve.Resolver
import PhpCalls.Toml.Reader
import PhpCalls.Toml.Writer

set_option autoImplicit false

/-!
# Configuration

The choices that a project keeps in a file of its own, and the settings of one analysis, which the
command line may change.

## Main definitions

* `Config`: the choices, with their defaults.
* `Config.ofToml?`, `Config.ofText?`: the choices in a file. What is left out has its default.
* `Config.toText?`: the text of a file with these choices.
* `Config.search`: the file that counts for a directory.
* `Settings`: what an analysis is told.
-/

namespace PhpCalls

/-- The choices of a project. -/
structure Config where
  /-- Used in the names of files. -/
  projectName : String := "default_project"
  /-- How many files are read at once. -/
  workers : Nat := 1
  /-- Fragments of the paths of directories that are left out. -/
  excludeDirs : List String :=
    ["vendor", "node_modules", "temp/compiled", ".git", ".callmap-cache"]
  /-- Patterns of paths that are left out. -/
  ignorePaths : List String := []
  /-- Candidates are narrowed by included files and used namespaces. -/
  importFilter : Bool := false
  /-- The greatest number of candidates that is believed. -/
  ambiguityCap : Nat := 10
  /-- The facts of files are kept between analyses. -/
  cacheEnabled : Bool := true
  /-- Where they are kept, seen from the project. -/
  cacheDir : String := ".callmap-cache"
  /-- How the names of results begin; by default the name of the project does. -/
  outputStem : Option String := none
  /-- Results stand in one file for each category. -/
  splitOutput : Bool := true
  /-- Results are written in lines. -/
  prettyOutput : Bool := true
deriving DecidableEq

namespace Config

/-- The name of the file. -/
def fileName : String := ".callmap.toml"

/-! ## Reading -/

/-- The entries of a section; a section may be left out, and may be a list of its values in
order. -/
def sectionOf (t : Toml) (name : String) (keys : List String) : Option (List (String × Toml)) :=
  match t.member? name with
  | none => some []
  | some (.table entries) => some entries
  | some (.arr values) => some (keys.zip values)
  | some _ => none

/-- An entry of a section, or its default. -/
def entry {α : Type} (entries : List (String × Toml)) (key : String) (default : α)
    (read : Toml → Option α) : Option α :=
  match entries.lookup key with
  | some v => read v
  | none => some default

/-- A text. -/
def text? : Toml → Option String
  | .str s => some s
  | _ => none

/-- A number that is not negative. -/
def number? : Toml → Option Nat
  | .int n => if 0 ≤ n then some n.toNat else none
  | _ => none

/-- A truth value. -/
def boolean? : Toml → Option Bool
  | .bool b => some b
  | _ => none

/-- A list of texts. -/
def texts? : Toml → Option (List String)
  | .arr vs => vs.mapM text?
  | _ => none

/-- The choices in a document. -/
def ofToml? (t : Toml) : Option Config := do
  let d : Config := {}
  let general ← sectionOf t "general" ["project_name", "workers"]
  let ignored ← sectionOf t "ignore" ["dirs", "paths"]
  let resolution ← sectionOf t "resolve" ["import_filter", "ambiguity_cap"]
  let cache ← sectionOf t "cache" ["enabled", "dir"]
  let output ← sectionOf t "output" ["prefix", "split", "pretty"]
  return {
    projectName := ← entry general "project_name" d.projectName text?
    workers := ← entry general "workers" d.workers number?
    excludeDirs := ← entry ignored "dirs" d.excludeDirs texts?
    ignorePaths := ← entry ignored "paths" d.ignorePaths texts?
    importFilter := ← entry resolution "import_filter" d.importFilter boolean?
    ambiguityCap := ← entry resolution "ambiguity_cap" d.ambiguityCap number?
    cacheEnabled := ← entry cache "enabled" d.cacheEnabled boolean?
    cacheDir := ← entry cache "dir" d.cacheDir text?
    outputStem := ← entry output "prefix" d.outputStem fun v => (text? v).map some
    splitOutput := ← entry output "split" d.splitOutput boolean?
    prettyOutput := ← entry output "pretty" d.prettyOutput boolean? }

/-- The choices in the text of a file. -/
def ofText? (text : String) : Option Config := (Toml.parse text).bind ofToml?

/-! ## Writing -/

/-- The numbers that a file can hold. -/
def numberBound : Nat := 0x8000000000000000

/-- The text of a file with these choices; there is none if a number is too great. -/
def toText? (c : Config) : Option String :=
  if c.workers < numberBound && c.ambiguityCap < numberBound then
    some <| Text.joinWith "\n"
      [Toml.tableText "general"
        [("project_name", Toml.quote c.projectName), ("workers", toString c.workers)],
       Toml.tableText "ignore"
        [("dirs", Toml.array c.excludeDirs), ("paths", Toml.array c.ignorePaths)],
       Toml.tableText "resolve"
        [("import_filter", Toml.boolean c.importFilter),
          ("ambiguity_cap", toString c.ambiguityCap)],
       Toml.tableText "cache"
        [("enabled", Toml.boolean c.cacheEnabled), ("dir", Toml.quote c.cacheDir)],
       Toml.tableText "output"
        ((c.outputStem.map fun s => ("prefix", Toml.quote s)).toList
          ++ [("split", Toml.boolean c.splitOutput), ("pretty", Toml.boolean c.prettyOutput)])]
  else none

/-! ## Searching -/

/-- The paths above a path and the path itself, the path first, at most `fuel` of them. -/
def upwards : Nat → String → List String
  | 0, _ => []
  | fuel + 1, path => path :: ((Path.parent? path).map (upwards fuel)).getD []

/-- The path of the file that counts for a directory: the first that is there, from the directory
upwards. -/
def search (d : Disk) (directory : String) : Option String :=
  ((upwards (directory.length + 2) directory).map fun p => Path.join p fileName).find? d.has

end Config

/-! ## Settings -/

/-- What an analysis is told. -/
structure Settings where
  projectName : String
  workers : Nat
  excludeDirs : List String
  ignorePaths : List String
  useCache : Bool
  cacheDir : String
  resolve : ResolveOptions
deriving DecidableEq

/-- The settings that follow from the choices of a project. -/
def Settings.ofConfig (c : Config) : Settings where
  projectName := c.projectName
  workers := max c.workers 1
  excludeDirs := c.excludeDirs
  ignorePaths := c.ignorePaths
  useCache := c.cacheEnabled
  cacheDir := c.cacheDir
  resolve := { importFilter := c.importFilter, ambiguityCap := c.ambiguityCap }

end PhpCalls
