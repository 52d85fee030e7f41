import PhpCalls.CommandLine.Args
import PhpCalls.Report

set_option autoImplicit false

/-!
# Carrying out a command

## Main definitions

* `Config.load`, `Config.find`, `Config.save`: choices in files.
* `AnalyzeArgs.settings`: what the command line changes in the choices of a project.
* `AnalyzeArgs.run`, `Config.init`: the two commands.
* `CommandLine.run`: a command line, carried out.
-/

namespace PhpCalls

/-! ## Choices in files -/

namespace Config

/-- The choices in a file. -/
def load (path : String) : Job Config := do
  let text ← Job.look (fun _ => .read path) fun d => d.readText path
  match ofText? text with
  | some c => return c
  | none => throw (.config path)

/-- The choices that count for a directory; the defaults if no file is there. -/
def find (directory : String) : Job Config := do
  match search (← get) directory with
  | some path => load path
  | none => return {}

/-- Writes a file with these choices. -/
def save (c : Config) (path : String) : Job Unit :=
  match c.toText? with
  | some text => Job.writeText path text
  | none => throw .unwritable

/-- Writes a file with the default choices into a directory, unless one is there. -/
def init (directory : String) : Job Unit := do
  let path := Path.join directory fileName
  if (← get).has path then pure () else save {} path

end Config

/-! ## Analysing -/

namespace AnalyzeArgs

/-- The choices of a project with what the command line says. Excluded fragments are added. -/
def settings (a : AnalyzeArgs) (c : Config) : Settings :=
  let s := Settings.ofConfig c
  { s with
    projectName := a.projectName.getD s.projectName
    workers := (a.workers.map fun n => max n 1).getD s.workers
    excludeDirs :=
      a.excludeDirs.foldl (fun dirs d =>
        if dirs.contains d then dirs else dirs ++ [d]) s.excludeDirs
    useCache := s.useCache && !a.noCache
    resolve := { s.resolve with importFilter := s.resolve.importFilter || a.importFilter } }

/-- The facts of files; a cache that cannot be read is removed, and the files are read again. -/
def readRecovering (p : Project) (paths : List String) : Job ReadOutcome :=
  tryCatch (p.read paths) fun fault =>
    if fault.isOfCache then do
      p.cache.clear
      p.read paths
    else throw fault

/-- Analyses a project and writes the results; their paths. -/
def run (a : AnalyzeArgs) : Job (List String) := do
  match a.projectPath with
  | none => throw .pathRequired
  | some path =>
    if !(← get).isDir path then throw (.pathUnusable path)
    let config ← Config.find path
    let project ← Project.ofPath path (a.settings config)
    if a.clearCache then project.cache.clear
    let paths ← project.discover
    let analysis := project.conclude paths.length (← readRecovering project paths)
    let stem := (a.output <|> config.outputStem).getD (defaultStem project.settings.projectName)
    analysis.report stem { split := config.splitOutput, pretty := config.prettyOutput }

end AnalyzeArgs

/-- A command line, carried out; the paths of what was written. -/
def CommandLine.run (c : CommandLine) : Job (List String) :=
  match c.command with
  | .analyze _ args => args.run
  | .init path => do
    Config.init (path.getD ".")
    return []

/-- Which messages are shown; none is chosen if no more are asked for. -/
def CommandLine.logLevel? (verbose : Nat) : Option String :=
  match verbose with
  | 0 => none
  | 1 => some "info"
  | 2 => some "debug"
  | _ => some "trace"

end PhpCalls
