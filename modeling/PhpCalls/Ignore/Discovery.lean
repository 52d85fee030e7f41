import PhpCalls.Files.Disk
import PhpCalls.Ignore.Rules

set_option autoImplicit false

/-!
# Finding source files

The files below a directory that have one of the wanted extensions. Names that begin with a dot are
passed over, as is what the ignore files on the way say, what ignore patterns say and directories
with an excluded fragment in their path. A directory that is passed over is not entered.

## Main definitions

* `IgnoreLayer`: the ignore files of one directory.
* `DiscoverOptions`: what is looked for and what is left out.
* `Disk.discover`: the files below a path.
-/

namespace PhpCalls

/-! ## Ignore files -/

/-- The ignore files of one directory. -/
structure IgnoreLayer where
  /-- The directory. -/
  base : List String
  /-- The lines of `.ignore`. -/
  own : List IgnoreRule
  /-- The lines of `.gitignore`. -/
  git : List IgnoreRule
  /-- The lines of `.git/info/exclude`. -/
  exclude : List IgnoreRule
  /-- The directory is the top of a repository. -/
  hasGit : Bool

namespace IgnoreLayer

/-- The rules in a file of a directory. -/
def rulesAt (t : FileTree) (position : List String) : List IgnoreRule :=
  match t.get? position with
  | some (.file b) => IgnoreRule.ofContent b
  | _ => []

/-- The ignore files of a directory. -/
def ofDir (base : List String) (t : FileTree) : IgnoreLayer where
  base
  own := rulesAt t [".ignore"]
  git := rulesAt t [".gitignore"]
  exclude := rulesAt t [".git", "info", "exclude"]
  hasGit := (t.child? ".git").isSome

/-- What rules of this directory say about a position below it. -/
def ask (l : IgnoreLayer) (rules : List IgnoreRule) (position : List String) (isDir : Bool) :
    Verdict :=
  IgnoreRule.verdict rules (Text.joinWith "/" (position.drop l.base.length)) isDir

/-- What the `.ignore` files say; a deeper file goes before a higher one. -/
def ownVerdict (layers : List IgnoreLayer) (position : List String) (isDir : Bool) : Verdict :=
  layers.foldl (fun v l => v.orElse (l.ask l.own position isDir)) .nothing

/-- The directories from the deepest up to the top of the repository. -/
def inRepository : List IgnoreLayer → List IgnoreLayer
  | [] => []
  | l :: ls => if l.hasGit then [l] else l :: inRepository ls

/-- What all ignore files say. The files of a repository count only inside one; `.ignore` goes
before `.gitignore`, and that before `.git/info/exclude`. -/
def verdict (layers : List IgnoreLayer) (position : List String) (isDir : Bool) : Verdict :=
  let repository := if layers.any IgnoreLayer.hasGit then inRepository layers else []
  let among (rules : IgnoreLayer → List IgnoreRule) : Verdict :=
    repository.foldl (fun v l => v.orElse (l.ask (rules l) position isDir)) .nothing
  ((ownVerdict layers position isDir).orElse (among git)).orElse (among exclude)

end IgnoreLayer

/-! ## Options -/

/-- What is looked for and what is left out. -/
structure DiscoverOptions where
  /-- The wanted extensions, each with its dot. -/
  extensions : List String := [".php"]
  /-- Patterns of paths that are left out. -/
  ignorePaths : List String := []
  /-- Fragments of the paths of directories that are left out. -/
  excludeDirs : List String := []

namespace DiscoverOptions

/-- The fragments without slashes around them, with slashes only. -/
def fragments (o : DiscoverOptions) : List String :=
  (o.excludeDirs.map fun f => Text.slashed (Text.trimBoth (fun c => c = '/' || c = '\\') f)).filter
    fun f => f ≠ ""

/-- The pattern that leaves out what an ignore pattern names. -/
def overrideLine (pattern : String) : String :=
  if pattern.toList.getLast? = some '/' then "!" ++ pattern ++ "**" else "!" ++ pattern

/-- The rules of the ignore patterns; an error if one cannot be read. -/
def overrides (o : DiscoverOptions) : Except Unit (List IgnoreRule) := do
  let rules ← o.ignorePaths.mapM fun p => IgnoreRule.ofLine false (overrideLine p)
  return rules.filterMap id

end DiscoverOptions

/-- A fragment is a run of whole parts of a path. -/
def hasFragment (fragments : List String) (relative : String) : Bool :=
  let padded := "/" ++ relative ++ "/"
  fragments.any fun f => Text.contains padded ("/" ++ f ++ "/")

/-! ## Walking -/

/-- What a walk knows besides where it is. -/
structure Walk where
  /-- The directory from which the walk starts. -/
  base : List String
  /-- The rules that go before all ignore files. -/
  overrides : List IgnoreRule
  /-- The fragments of directories that are left out. -/
  fragments : List String

namespace Walk

/-- A position below the start, as a text. -/
def below (w : Walk) (position : List String) : String :=
  Text.joinWith "/" (position.drop w.base.length)

/-- The name begins with a dot. -/
def isHidden (name : String) : Bool := name.toList.head? = some '.'

/-- What is passed over: by the patterns, else by the ignore files, else for its name. -/
def isIgnored (w : Walk) (layers : List IgnoreLayer) (position : List String) (name : String)
    (isDir : Bool) : Bool :=
  let byPatterns := (IgnoreRule.verdict w.overrides (w.below position) isDir).invert
  match byPatterns.orElse (IgnoreLayer.verdict layers position isDir) with
  | .ignored => true
  | .kept => false
  | .nothing => isHidden name

/-- A directory is left out for a fragment of its path. -/
def isExcluded (w : Walk) (position : List String) : Bool :=
  hasFragment w.fragments (Text.slashed (w.below position))

mutual

/-- The files that a walk finds at a position it has come to. -/
def visit (w : Walk) (layers : List IgnoreLayer) (position : List String) :
    FileTree → List (List String)
  | .file _ => [position]
  | .dir es => visitAll w (IgnoreLayer.ofDir position (.dir es) :: layers) position es

/-- The files that a walk finds among the entries of a directory. -/
def visitAll (w : Walk) (layers : List IgnoreLayer) (position : List String) :
    List (String × FileTree) → List (List String)
  | [] => []
  | e :: es => visitEntry w layers position e ++ visitAll w layers position es

/-- The files that a walk finds at one entry of a directory. -/
def visitEntry (w : Walk) (layers : List IgnoreLayer) (position : List String) :
    String × FileTree → List (List String)
  | (name, t) =>
    let here := position ++ [name]
    if w.isIgnored layers here name t.isDir || (t.isDir && w.isExcluded here) then []
    else visit w layers here t

end

end Walk

/-- The extension of a path, with its dot and in small letters, is a wanted one. -/
def hasExtension (extensions : List String) (path : String) : Bool :=
  (Path.extension? path).any fun e => extensions.contains ("." ++ Text.foldCase e)

/-- The directories above a position, the nearest first, with their trees. -/
def FileTree.above (t : FileTree) (position : List String) : List (List String × FileTree) :=
  ((List.range position.length).reverse.map fun n => position.take n).filterMap fun p =>
    (t.get? p).map fun d => (p, d)

/-- Why files could not be looked for. -/
inductive DiscoverFault where
  /-- The path leads nowhere. -/
  | inaccessible
  /-- A pattern cannot be read. -/
  | badPattern

/-- The absolute paths of the files below a path, in the order of paths. The path itself is never
passed over. -/
def Disk.discover (d : Disk) (path : String) (o : DiscoverOptions) :
    Except DiscoverFault (List String) := do
  match d.locate path, (d.find path).toOption with
  | .ok base, some t =>
    match o.overrides with
    | .error _ => .error .badPattern
    | .ok overrides =>
      let layers := (d.tree.above base).map fun (p, t) => IgnoreLayer.ofDir p t
      let found := ({ base, overrides, fragments := o.fragments } : Walk).visit layers base t
      return Path.sort ((found.map Disk.absolute).filter (hasExtension o.extensions))
  | _, _ => .error .inaccessible

end PhpCalls
