import PhpCalls.Resolve.ImportHint
import PhpCalls.Resolve.Index

set_option autoImplicit false

/-!
# Resolving a call

A call is looked up by its name. What is found is narrowed by where the call stands, then by the
number of arguments and by visibility. Too many candidates are as good as none.

## Main definitions

* `ResolveOptions`: how a call is resolved.
* `Outcome`: what resolving a call says.
* `Candidate`: a declaration that a call may mean.
* `Index.candidates`: what the look-up finds.
* `Index.resolve`: the outcome for a call.
-/

namespace PhpCalls

/-- How calls are resolved. -/
structure ResolveOptions where
  /-- Candidates are narrowed by included files and used namespaces. -/
  importFilter : Bool := false
  /-- The greatest number of candidates that is believed. -/
  ambiguityCap : Nat := 10
deriving DecidableEq

/-- What resolving a call says. -/
inductive Outcome where
  /-- From identifiers to files, the declarations that the call may mean. -/
  | resolved (candidates : Dict String)
  /-- Too many declarations. -/
  | ambiguous (count : Nat)
  /-- No declaration. -/
  | unresolved
  /-- PHP provides the callee. -/
  | builtin
  /-- The callee is not known by name. -/
  | dynamic

namespace Outcome

/-- What a call remembers of its outcome. -/
def mayBeSource : Outcome → Option (Dict String)
  | resolved candidates => some candidates
  | ambiguous _ => some .empty
  | unresolved | builtin | dynamic => none

end Outcome

/-- The tally with one more outcome. -/
def Tally.add (t : Tally) : Outcome → Tally
  | .resolved _ => { t with resolved := t.resolved + 1 }
  | .ambiguous _ => { t with ambiguous := t.ambiguous + 1 }
  | .unresolved => { t with unresolved := t.unresolved + 1 }
  | .builtin => { t with builtin := t.builtin + 1 }
  | .dynamic => { t with dynamic := t.dynamic + 1 }

/-! ## Candidates -/

/-- A declaration that a call may mean. -/
inductive Candidate where
  /-- A function or method. -/
  | declared (r : Routine)
  /-- A class without a constructor, which is created without one. -/
  | implicitConstructor (c : ClassDecl)

namespace Candidate

/-- The identifier of the declaration. -/
def id : Candidate → String
  | declared r => r.id
  | implicitConstructor c => c.id

/-- The file of the declaration. -/
def file : Candidate → String
  | declared r => r.file
  | implicitConstructor c => c.file

/-- The namespace of the declaration. -/
def inNamespace : Candidate → Option String
  | declared r => r.inNamespace
  | implicitConstructor c => c.inNamespace

/-- There are as many parameters as arguments. A class without a constructor takes any arguments. -/
def accepts (arguments : Nat) : Candidate → Bool
  | declared r => arguments ≤ r.parameters.length
  | implicitConstructor _ => true

/-- Only its own class may use it. -/
def isPrivate : Candidate → Bool
  | declared r => r.visibility = .owner
  | implicitConstructor _ => false

end Candidate

/-! ## Look-up -/

/-- A method is one that the call may mean by its name. Constructors have one name, in any case of
its letters. -/
def Routine.isTargetOf (c : Call) (m : Routine) : Bool :=
  if c.kind = .construct then Builtin.isConstructor m.name
  else m.fullname = c.fullname || m.name = c.name

/-- A class has a constructor. -/
def ClassDecl.hasConstructor (c : ClassDecl) : Bool :=
  c.methods.any fun m => Builtin.isConstructor m.name

/-- The candidates for a call in a class. -/
def ClassDecl.candidates (c : Call) (k : ClassDecl) : List Candidate :=
  if c.kind = .construct && !k.hasConstructor then [.implicitConstructor k]
  else (k.methods.filter (Routine.isTargetOf c)).map .declared

namespace Index

/-- The functions that a call may mean. -/
def functionCandidates (i : Index) (c : Call) : List Candidate :=
  ((i.functionsNamed c.name).filterMap i.function?).map .declared

/-- The classes whose methods a call may mean: those with a method of the call's full name, else
those of the call's class name, else, but for constructors, those with a method of the call's
name. -/
def classesFor (i : Index) (c : Call) : List String :=
  match i.classesWithFullname c.fullname with
  | [] =>
    match (c.className.map i.classesNamed).getD [] with
    | [] => if c.kind = .construct then [] else i.classesWithMethod c.name
    | ids => ids
  | ids => ids

/-- The methods that a call may mean. -/
def classCandidates (i : Index) (c : Call) : List Candidate :=
  ((i.classesFor c).filterMap i.class?).flatMap (ClassDecl.candidates c)

/-- What the look-up finds for a call. -/
def candidates (i : Index) (c : Call) : List Candidate :=
  if c.kind.isClassBound then i.classCandidates c else i.functionCandidates c

end Index

/-! ## Narrowing -/

namespace Call

/-- The candidates in the call's own file. -/
def sameFile (c : Call) (cs : List Candidate) : List Candidate :=
  cs.filter fun k => c.file = some k.file

/-- The candidate's namespace holds a used namespace. -/
def inHintedNamespace (hint : String) (k : Candidate) : Bool :=
  k.inNamespace.any fun n => Text.contains (Text.slashed n) hint

/-- Each candidate that one of the tests accepts, by the order of the tests, each identifier
once. -/
def keepByTests (tests : List (Candidate → Bool)) (cs : List Candidate) : List Candidate :=
  (tests.flatMap fun t => cs.filter t).eraseDupsBy fun a b => a.id = b.id

/-- The tests that the call's hints give: its used namespaces, then its included files. -/
def hintTests (c : Call) : List (Candidate → Bool) :=
  ((c.mayNamespaces.map Text.slashed).filter fun n => n ≠ "").map inHintedNamespace
    ++ (c.mayFiles.filterMap importHint?).map fun path k => Text.contains k.file path

/-- The candidates that the call's hints speak for. -/
def filterByImports (c : Call) (cs : List Candidate) : List Candidate := keepByTests c.hintTests cs

/-- The candidates that are left by where the call stands. -/
def narrow (o : ResolveOptions) (c : Call) (cs : List Candidate) : List Candidate :=
  if c.isNative then c.sameFile cs
  else if o.importFilter && c.hasImportHints then c.filterByImports cs
  else cs

/-- A call may reach a candidate: the arguments fit, and a method of another class is not
private. -/
def mayReach (c : Call) (k : Candidate) : Bool :=
  k.accepts c.arguments.length && !(c.kind.isClassBound && !c.isNative && k.isPrivate)

/-- The outcome of a call whose look-up found `cs`. The bound on the number of candidates is tested
before the arguments are looked at, and once more for those that are left. -/
def select (o : ResolveOptions) (c : Call) (cs : List Candidate) : Outcome :=
  let near := c.narrow o cs
  if o.ambiguityCap < near.length then .ambiguous near.length
  else
    let left := near.filter c.mayReach
    if left.isEmpty then .unresolved
    else if o.ambiguityCap < left.length then .ambiguous left.length
    else .resolved (.ofList (left.map fun k => (k.id, k.file)))

/-- The second test of the bound never acts: no more candidates are left than there were. -/
theorem select_eq (o : ResolveOptions) (c : Call) (cs : List Candidate) :
    c.select o cs =
      if o.ambiguityCap < (c.narrow o cs).length then .ambiguous (c.narrow o cs).length
      else if ((c.narrow o cs).filter c.mayReach).isEmpty then .unresolved
      else .resolved (.ofList
        (((c.narrow o cs).filter c.mayReach).map fun k => (k.id, k.file))) := by
  have hle : ((c.narrow o cs).filter c.mayReach).length ≤ (c.narrow o cs).length :=
    List.length_filter_le _ _
  simp only [select]
  split
  · rfl
  · next hcap =>
    have hleft : ¬ o.ambiguityCap < ((c.narrow o cs).filter c.mayReach).length :=
      fun h => hcap (Nat.lt_of_lt_of_le h hle)
    rw [if_neg hleft]

end Call

/-- The outcome for a call. -/
def Index.resolve (i : Index) (o : ResolveOptions) (c : Call) : Outcome :=
  match c.kind with
  | .builtin => .builtin
  | .dynamic => .dynamic
  | .general | .construct | .magic | .classMethod => c.select o (i.candidates c)

end PhpCalls
