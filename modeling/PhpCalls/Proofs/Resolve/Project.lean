import PhpCalls.Facts.File
import PhpCalls.Proofs.Resolve.Index
import PhpCalls.Resolve.Project

set_option autoImplicit false

/-!
# The records of a resolved project

Resolution goes over the records several times: it stamps them, writes the outcomes into the calls
and the callers into the declarations. Each pass replaces routines in place, so that a resolved
project is the stamped project with every routine settled by one function, and its calls are the
calls of the project in the same order.

## Main definitions

* `Call.settled`, `Routine.settled`: a stamped call or routine as it stands in the resolved project.
* `ClassDecl.mapMethods`: a class with its methods replaced.
* `FileFacts.calls`: the calls of a file.
* `ProjectFacts.routines`: the routines of a project.
* `ProjectFacts.ofTrees`: the facts of a project, given the syntax trees of its files.

## Main results

* `ProjectFacts.files_resolve`: the files of a resolved project.
* `ProjectFacts.functions_resolve`, `ProjectFacts.classes_resolve`, `ProjectFacts.calls_resolve`:
  its functions, classes and calls.
* `ProjectFacts.calls_of_get?_resolve`: the calls of a file of a resolved project.
-/

namespace PhpCalls

/-- A call with its outcome. -/
def Call.settled (i : Index) (o : ResolveOptions) (c : Call) : Call :=
  { c with mayBeSource := (i.resolve o c).mayBeSource }

/-- A routine with the outcomes of its calls and with its callers. -/
def Routine.settled (i : Index) (o : ResolveOptions) (g : CallGraph) (r : Routine) : Routine :=
  { r with calls := r.calls.map (Call.settled i o), calledBy := g.callers r.id }

/-- A class with its methods replaced. -/
def ClassDecl.mapMethods (g : Routine → Routine) (k : ClassDecl) : ClassDecl :=
  { k with methods := k.methods.map g }

/-! ## Stamped calls -/

namespace Call

variable (path : String) (facts : FileFacts) (c : Call)

/-- Stamping does not change whether a call is native. -/
@[simp] lemma isNative_stamp : (c.stamp path facts).isNative = c.isNative := by
  unfold stamp
  split <;> rfl

/-- Stamping does not change the sort of a call. -/
@[simp] lemma kind_stamp : (c.stamp path facts).kind = c.kind := by
  unfold stamp
  split <;> rfl

/-- Stamping does not change the class that a call is made on. -/
@[simp] lemma className_stamp : (c.stamp path facts).className = c.className := by
  unfold stamp
  split <;> rfl

/-- A stamped call of a callee of its own file has that file. -/
lemma file_stamp_of_isNative {path : String} {facts : FileFacts} {c : Call}
    (h : (c.stamp path facts).isNative = true) : (c.stamp path facts).file = some path := by
  unfold stamp at h ⊢
  by_cases hn : c.isNative = true
  · simp only [hn, if_true]
  · simp only [hn] at h
    exact absurd h (by simp)

end Call

/-! ## Replacing routines -/

namespace FileFacts

/-- Routines that are changed twice are changed once by both changes. -/
lemma mapRoutines_mapRoutines (f : FileFacts) (g h : Routine → Routine) :
    (f.mapRoutines g).mapRoutines h = f.mapRoutines (h ∘ g) := by
  simp [mapRoutines]

/-- Changing the routines of a file changes the methods of its classes. -/
lemma classes_mapRoutines (f : FileFacts) (g : Routine → Routine) :
    (f.mapRoutines g).classes = f.classes.map (ClassDecl.mapMethods g) := rfl

/-- The routines of a changed file are the changed routines. -/
lemma routines_mapRoutines (f : FileFacts) (g : Routine → Routine) :
    (f.mapRoutines g).routines = f.routines.map g := by
  simp [mapRoutines, routines, List.map_flatMap, List.flatMap_map]

/-- The calls of a file, by declaration and place. -/
def calls (f : FileFacts) : List Call := f.routines.flatMap Routine.calls

/-- Replacing routines with their calls replaced one by one. -/
lemma calls_mapRoutines (f : FileFacts) {g : Routine → Routine} {h : Call → Call}
    (hg : ∀ r, (g r).calls = r.calls.map h) : (f.mapRoutines g).calls = f.calls.map h := by
  simp only [calls, routines_mapRoutines, List.flatMap_map, List.map_flatMap, hg]

/-- The routines of a stamped file are the stamped routines. -/
lemma routines_stamp (f : FileFacts) (p : String) :
    (f.stamp p).routines = f.routines.map (Routine.stamp (Text.slashed p) f) := by
  simp [stamp, routines, ClassDecl.stamp, List.map_flatMap, List.flatMap_map]

/-- The calls of a stamped file are the stamped calls. -/
lemma calls_stamp (f : FileFacts) (p : String) :
    (f.stamp p).calls = f.calls.map (Call.stamp (Text.slashed p) f) := by
  simp only [calls, routines_stamp, List.flatMap_map, List.map_flatMap]
  rfl

end FileFacts

namespace ProjectFacts

/-- The functions and methods of a project, and the file levels, by path and place. -/
def routines (files : ProjectFacts) : List Routine := files.values.flatMap FileFacts.routines

variable (files : ProjectFacts) (o : ResolveOptions)

/-- The calls of a project are those of its routines. -/
lemma calls_eq_flatMap_routines : files.calls = files.routines.flatMap Routine.calls := by
  rw [calls, routines, List.flatMap_assoc]

/-- A change that keeps names changes the functions of a project one by one. -/
lemma functions_map_mapRoutines {g : Routine → Routine} (hname : ∀ r, (g r).name = r.name) :
    ProjectFacts.functions (files.map fun _ f => f.mapRoutines g) = files.functions.map g := by
  have hfile : ∀ f : FileFacts, ((f.mapRoutines g).methods.filter fun r => r.name ≠ fileLevelName) =
      (f.methods.filter fun r => r.name ≠ fileLevelName).map g := by
    intro f
    simp only [FileFacts.mapRoutines, List.filter_map]
    exact congrArg _ (List.filter_congr fun r _ => by simp [hname])
  simp only [functions, Dict.values, Dict.entries_map, List.map_map, List.flatMap_map,
    List.map_flatMap, Function.comp_apply, hfile]

/-- Changing the routines of a project changes the methods of its classes. -/
lemma classes_map_mapRoutines (g : Routine → Routine) :
    ProjectFacts.classes (files.map fun _ f => f.mapRoutines g) =
      files.classes.map (ClassDecl.mapMethods g) := by
  simp only [classes, Dict.values, Dict.entries_map, List.map_map, List.flatMap_map,
    List.map_flatMap, Function.comp_apply, FileFacts.classes_mapRoutines]

/-- The classes of a stamped project are the stamped classes of its files. -/
lemma classes_stamp :
    files.stamp.classes = files.entries.flatMap fun e => (e.2.stamp e.1).classes := by
  simp only [classes, stamp, Dict.values, Dict.entries_map, List.map_map, List.flatMap_map,
    Function.comp_apply]

/-- A change that treats the calls of a routine one by one does so for the calls of a project. -/
lemma calls_map_mapRoutines {g : Routine → Routine} {h : Call → Call}
    (hg : ∀ r, (g r).calls = r.calls.map h) :
    ProjectFacts.calls (files.map fun _ f => f.mapRoutines g) = files.calls.map h := by
  have hcalls : ∀ files : ProjectFacts, files.calls = files.values.flatMap FileFacts.calls :=
    fun _ => rfl
  simp only [hcalls, Dict.values, Dict.entries_map, List.map_map, List.flatMap_map,
    List.map_flatMap, Function.comp_apply, FileFacts.calls_mapRoutines _ hg]

/-! ## The resolved project -/

/-- A resolved project is the stamped project with every routine settled. -/
theorem files_resolve :
    (files.resolve o).files = files.stamp.map fun _ f =>
      f.mapRoutines (Routine.settled (Index.ofProject files.stamp) o (files.resolve o).graph) := by
  apply Dict.ext_entries
  simp only [resolve, annotate, resolveCalls, Dict.entries_map, List.map_map]
  refine List.map_congr_left fun e _ => ?_
  simp only [Function.comp_apply, FileFacts.mapRoutines_mapRoutines]
  rfl

/-- The functions of a resolved project are those of the stamped one, settled. -/
lemma functions_resolve :
    (files.resolve o).files.functions = files.stamp.functions.map
      (Routine.settled (Index.ofProject files.stamp) o (files.resolve o).graph) := by
  rw [files_resolve]
  exact functions_map_mapRoutines _ fun _ => rfl

/-- The classes of a resolved project are those of the stamped one, their methods settled. -/
lemma classes_resolve :
    (files.resolve o).files.classes = files.stamp.classes.map (ClassDecl.mapMethods
      (Routine.settled (Index.ofProject files.stamp) o (files.resolve o).graph)) := by
  rw [files_resolve]
  exact classes_map_mapRoutines _ _

/-- The calls of a resolved project are those of the stamped one, settled. -/
lemma calls_resolve :
    (files.resolve o).files.calls =
      files.stamp.calls.map (Call.settled (Index.ofProject files.stamp) o) := by
  rw [files_resolve]
  exact calls_map_mapRoutines _ fun _ => rfl

/-- So are they before the callers are written into the declarations. -/
lemma calls_resolveCalls (i : Index) :
    (files.resolveCalls i o).calls = files.calls.map (Call.settled i o) :=
  calls_map_mapRoutines _ fun _ => rfl

/-- The file at a path of a resolved project. -/
lemma get?_resolve (p : String) :
    (files.resolve o).files.get? p = (files.get? p).map fun f => (f.stamp p).mapRoutines
      (Routine.settled (Index.ofProject files.stamp) o (files.resolve o).graph) := by
  rw [files_resolve, stamp, Dict.get?_map, Dict.get?_map, Option.map_map]
  rfl

/-- The calls of a file of a resolved project are those of the file, stamped and settled. -/
theorem calls_of_get?_resolve {files : ProjectFacts} {o : ResolveOptions} {p : String}
    {f : FileFacts} (hf : (files.resolve o).files.get? p = some f) :
    ∃ raw : FileFacts, files.get? p = some raw ∧ f.calls = raw.calls.map fun c =>
      (c.stamp (Text.slashed p) raw).settled (Index.ofProject files.stamp) o := by
  rw [get?_resolve, Option.map_eq_some_iff] at hf
  obtain ⟨raw, hraw, rfl⟩ := hf
  refine ⟨raw, hraw, ?_⟩
  rw [FileFacts.calls_mapRoutines _ (fun _ => rfl), FileFacts.calls_stamp, List.map_map]
  rfl

end ProjectFacts

/-! ## Projects of syntax trees -/

namespace ProjectFacts

open Syntax

/-- The facts of a project, given the syntax trees of its files. -/
def ofTrees (trees : Dict Node) : ProjectFacts := trees.map fun _ t => .ofTree t

/-- A stamped file shows the facts of a tree, stamped with its path. -/
lemma exists_of_mem_values_stamp {trees : Dict Node} {f : FileFacts}
    (hf : f ∈ (ofTrees trees).stamp.values) :
    ∃ path root, (path, root) ∈ trees.entries ∧ f = (FileFacts.ofTree root).stamp path := by
  simp only [stamp, ofTrees, Dict.values, Dict.entries_map, List.map_map, List.mem_map] at hf
  obtain ⟨⟨path, root⟩, hroot, rfl⟩ := hf
  exact ⟨path, root, hroot, rfl⟩

end ProjectFacts

end PhpCalls
