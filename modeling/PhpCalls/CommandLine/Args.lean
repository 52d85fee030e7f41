import PhpCalls.Text.Basic

set_option autoImplicit false

/-!
# The command line

A command line is a row of words. Flags begin with a hyphen; those that take a value take it from
the same word or from the next. A command, if there is one, is the first word.

## Main definitions

* `CommandLine`: what a command line asks for.
* `ArgFault`: why words are no command line, or that help or the version is asked for.
* `CommandLine.parse`: what words ask for.

A value is looked at only when the next flag or the end is reached, so that a fault in a later word
that is no flag goes before a fault in the value.
-/

namespace PhpCalls

/-- What `analyze` is told. -/
structure AnalyzeArgs where
  projectPath : Option String := none
  projectName : Option String := none
  workers : Option Nat := none
  output : Option String := none
  noCache : Bool := false
  clearCache : Bool := false
  excludeDirs : List String := []
  importFilter : Bool := false
deriving DecidableEq, Repr

/-- What is to be done. -/
inductive Command where
  /-- Analyse a project; `named` tells whether the command was named. -/
  | analyze (named : Bool) (args : AnalyzeArgs)
  /-- Write a file with the default choices. -/
  | init (path : Option String)
deriving DecidableEq, Repr

/-- What a command line asks for. -/
structure CommandLine where
  command : Command
  /-- How often more messages are asked for. -/
  verbose : Nat
deriving DecidableEq, Repr

/-- Why words are no command line, or what they ask for instead. -/
inductive ArgFault where
  | unknownArgument
  /-- A value is missing, or empty where it may not be. -/
  | invalidValue
  /-- A value is no number. -/
  | valueValidation
  /-- A flag is given twice, or a word follows flags. -/
  | argumentConflict
  | invalidSubcommand
  | tooManyValues
  | displayHelp
  | displayVersion
deriving DecidableEq, Repr

/-- The message for a fault. -/
def ArgFault.message : ArgFault → String
  | unknownArgument => "unexpected argument found"
  | invalidValue => "one of the values isn't valid for an argument"
  | valueValidation => "invalid value for one of the arguments"
  | argumentConflict =>
    "an argument cannot be used with one or more of the other specified arguments"
  | invalidSubcommand => "unrecognized subcommand"
  | tooManyValues => "unexpected value for an argument found"
  | displayHelp => "help is asked for"
  | displayVersion => "the version is asked for"

namespace CommandLine

/-! ## Flags -/

/-- The flags. -/
inductive Flag where
  | projectPath
  | projectName
  | workers
  | output
  | noCache
  | clearCache
  | excludeDir
  | importFilter
  | verbose
  | help
  | version
deriving DecidableEq, Repr

namespace Flag

/-- The long name of a flag. -/
def long : Flag → String
  | projectPath => "project-path"
  | projectName => "project-name"
  | workers => "workers"
  | output => "output"
  | noCache => "no-cache"
  | clearCache => "clear-cache"
  | excludeDir => "exclude-dir"
  | importFilter => "import-filter"
  | verbose => "verbose"
  | help => "help"
  | version => "version"

/-- The short name of a flag. -/
def short? : Flag → Option Char
  | projectPath => some 'p'
  | projectName => some 'n'
  | workers => some 'w'
  | output => some 'o'
  | excludeDir => some 'e'
  | verbose => some 'v'
  | help => some 'h'
  | version => some 'V'
  | noCache | clearCache | importFilter => none

/-- The flag takes a value. -/
def takesValue : Flag → Bool
  | projectPath | projectName | workers | output | excludeDir => true
  | noCache | clearCache | importFilter | verbose | help | version => false

/-- The flags of `analyze`. -/
def ofAnalyze : List Flag :=
  [projectPath, projectName, workers, output, noCache, clearCache, excludeDir,
    importFilter, verbose,
   help]

/-- The flags of a command line without a command. -/
def ofTop : List Flag := ofAnalyze ++ [version]

/-- The flags of `init`. -/
def ofInit : List Flag := [verbose, help]

end Flag

/-! ## Reading words -/

/-- Whose words are read. -/
inductive Level where
  | top
  | analyze
  | init
deriving DecidableEq, Repr

/-- The flags of a level. -/
def Level.flags : Level → List Flag
  | top => Flag.ofTop
  | analyze => Flag.ofAnalyze
  | init => Flag.ofInit

/-- What still has to be looked at. -/
inductive Pending where
  /-- Values of a flag. -/
  | values (flag : Flag) (given : List String)
  /-- A word that is no flag. -/
  | path (given : String)
deriving DecidableEq, Repr

/-- What has been read of a command line. -/
structure State where
  args : AnalyzeArgs := {}
  path : Option String := none
  verbose : Nat := 0
  pending : Option Pending := none
  /-- The flag for which the next word is a value. -/
  awaiting : Option Flag := none
  /-- Some flag or word has been read. -/
  found : Bool := false
  /-- Two hyphens have been read: no flags follow. -/
  trailing : Bool := false

/-- A number of 64 bits, which may have a plus sign. -/
def number? (s : String) : Option Nat :=
  let ds :=
    match s.toList with
    | '+' :: ds => ds
    | ds => ds
  (Text.digits? ds).filter fun n => n < 0x10000000000000000

/-- Sets a value that may be set once. -/
def once {α : Type} (old : Option α) (set_ : AnalyzeArgs) : Except ArgFault AnalyzeArgs :=
  if old.isSome then .error .argumentConflict else .ok set_

/-- The arguments with a value of a flag. -/
def setValue (a : AnalyzeArgs) (flag : Flag) (v : String) : Except ArgFault AnalyzeArgs :=
  match flag with
  | .projectPath => do
    let a' ← once a.projectPath { a with projectPath := some v }
    if v = "" then .error .invalidValue else .ok a'
  | .projectName => once a.projectName { a with projectName := some v }
  | .output => once a.output { a with output := some v }
  | .workers =>
    match a.workers, number? v with
    | some _, _ => .error .argumentConflict
    | none, some n => .ok { a with workers := some n }
    | none, none => .error .valueValidation
  | .excludeDir => .ok { a with excludeDirs := a.excludeDirs ++ [v] }
  | _ => .ok a

/-- The arguments with the values of a flag, of which there is at least one. -/
def setValues (a : AnalyzeArgs) (flag : Flag) (vs : List String) : Except ArgFault AnalyzeArgs :=
  if vs.isEmpty then .error .invalidValue else vs.foldlM (fun a v => setValue a flag v) a

/-- Looks at what is pending. -/
def settle (s : State) : Except ArgFault State := do
  match s.pending with
  | none => return s
  | some (.values flag vs) => return { s with args := ← setValues s.args flag vs, pending := none }
  | some (.path p) =>
    if p = "" then .error .invalidValue else return { s with path := some p, pending := none }

/-- The state after a flag without a value. -/
def switch (s : State) (flag : Flag) : Except ArgFault State := do
  let s ← settle { s with awaiting := none, found := true }
  let twice (on : Bool) (a : AnalyzeArgs) : Except ArgFault State :=
    if on then .error .argumentConflict else .ok { s with args := a }
  match flag with
  | .noCache => twice s.args.noCache { s.args with noCache := true }
  | .clearCache => twice s.args.clearCache { s.args with clearCache := true }
  | .importFilter => twice s.args.importFilter { s.args with importFilter := true }
  | .verbose => .ok { s with verbose := min (s.verbose + 1) 255 }
  | .help => .error .displayHelp
  | .version => .error .displayVersion
  | _ => .ok s

/-- The state after a flag with a value in the same word. -/
def attach (s : State) (flag : Flag) (v : String) : Except ArgFault State := do
  let s ← settle { s with awaiting := none, found := true }
  return { s with args := ← setValues s.args flag [v] }

/-- The state after a flag whose value is in the next word. -/
def await (s : State) (flag : Flag) : Except ArgFault State := do
  let s ← settle { s with found := true }
  return { s with pending := some (.values flag []), awaiting := some flag }

/-- The state after a flag with two hyphens. -/
def longFlag (level : Level) (s : State) (body : List Char) : Except ArgFault State :=
  let name := String.ofList (body.takeWhile (· ≠ '='))
  let value? := (body.drop name.length).tail?.map String.ofList
  match level.flags.find? fun f => f.long = name with
  | none => .error .unknownArgument
  | some flag =>
    match flag.takesValue, value? with
    | true, some v => attach s flag v
    | true, none => await s flag
    | false, some _ => .error .tooManyValues
    | false, none => switch s flag

/-- The state after flags with one hyphen. The first that takes a value has the rest of the word for
it. -/
def shortFlags (level : Level) : State → List Char → Except ArgFault State
  | s, [] => .ok s
  | s, c :: cs =>
    match level.flags.find? fun f => f.short? = some c with
    | none => .error .unknownArgument
    | some flag =>
      if flag.takesValue then
        match cs with
        | [] => await s flag
        | '=' :: v => attach s flag (String.ofList v)
        | v => attach s flag (String.ofList v)
      else do shortFlags level (← switch s flag) cs

/-- The state after a value of the flag that awaits one. -/
def addValue (s : State) (flag : Flag) (v : String) : State :=
  let given :=
    match s.pending with
    | some (.values _ vs) => vs
    | _ => []
  { s with
    pending := some (.values flag (given ++ [v]))
    awaiting := if flag = .excludeDir then some flag else none }

/-- How the program is called. -/
def usage : String :=
  Text.joinWith "\n"
    ["Static call-graph resolution for PHP projects",
     "",
     "Usage: callmap [OPTIONS]",
     "       callmap analyze [OPTIONS]",
     "       callmap init [PATH]",
     "",
     "Options:",
     "  -p, --project-path <PATH>      Root directory of the PHP project",
     "  -n, --project-name <NAME>      Project name used in cache and output file names",
     "  -w, --workers <N>              Parser threads (default: 1)",
     "  -o, --output <STEM>            Start of the names of output files",
     "      --no-cache                 Parse everything, ignoring and not writing the cache",
     "      --clear-cache              Delete this project's cache before running",
     "  -e, --exclude-dir <DIR>...     Extra directory fragments to skip",
     "      --import-filter            Narrow candidates by include and use hints",
     "  -v, --verbose...               More log output",
     "  -h, --help                     Print help",
     "  -V, --version                  Print version"]

/-- The names of the commands. -/
def commandNames : List String := ["analyze", "init", "help"]

/-- The fault of a word that has no place. -/
def stray (level : Level) (s : State) (w : String) : ArgFault :=
  match level with
  | .top =>
    if s.trailing && !s.found && commandNames.contains w then .unknownArgument
    else if s.found then .argumentConflict
    else .invalidSubcommand
  | .analyze | .init => .unknownArgument

/-- The state after a word that is no flag and no value. -/
def plainWord (level : Level) (s : State) (w : String) : Except ArgFault State := do
  if level = .init && s.path.isNone && s.pending.isNone then
    return { s with pending := some (.path w), found := true }
  else .error (stray level s w)

/-- The state after one word. -/
def step (level : Level) (s : State) (w : String) : Except ArgFault State :=
  if s.trailing then plainWord level s w
  else
    match w.toList with
    | ['-', '-'] => .ok { s with trailing := true }
    | '-' :: '-' :: body => longFlag level s body
    | '-' :: c :: body => shortFlags level s (c :: body)
    | _ =>
      match s.awaiting with
      | some flag => .ok (addValue s flag w)
      | none => plainWord level s w

/-- The state after all words of a command. -/
def readWords (level : Level) (s : State) (ws : List String) : Except ArgFault State := do
  settle (← ws.foldlM (step level) s)

/-- What the words after `help` ask for. -/
def helpFor (ws : List String) : ArgFault :=
  match ws with
  | [] => .displayHelp
  | [w] => if commandNames.contains w then .displayHelp else .invalidSubcommand
  | _ => .invalidSubcommand

/-- What words ask for. A command can only be the first word. -/
def parse (ws : List String) : Except ArgFault CommandLine := do
  match ws with
  | "analyze" :: rest =>
    let s ← readWords .analyze {} rest
    return { command := .analyze true s.args, verbose := s.verbose }
  | "init" :: rest =>
    let s ← readWords .init {} rest
    return { command := .init s.path, verbose := s.verbose }
  | "help" :: rest => .error (helpFor rest)
  | _ =>
    let s ← readWords .top {} ws
    return { command := .analyze false s.args, verbose := s.verbose }

end CommandLine

end PhpCalls
