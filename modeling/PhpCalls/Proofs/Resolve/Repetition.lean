import PhpCalls.Proofs.Resolve.Graph

set_option autoImplicit false

/-!
# Resolving again

Resolution completes the records in place: it writes identifiers and files into declarations, hints
and candidates into calls, and callers into declarations. What it writes it also finds in records
that were resolved before. None of it counts: every pass overwrites what it derives before another
pass reads it, and the hints, which are kept where a file gives none, come out the same a second
time.

## Main definitions

* `ProjectFacts.raw`: a project with the fields left out that resolution derives.
* `ProjectFacts.unlinked`: a stamped project without candidates and callers.
* `ProjectFacts.settle`: the passes that follow stamping.

## Main results

* `ProjectFacts.stamp_raw`, `ProjectFacts.stamp_stamp`: stamping overwrites identifiers and files,
  and is done once and for all.
* `ProjectFacts.settle_unlinked`: the later passes read neither candidates nor callers.
* `resolve_again`: resolving a resolved project is resolving the project, and stale derived fields
  are not seen.
-/

namespace PhpCalls

/-! ## Derived fields -/

/-- The call without its candidates. -/
def Call.raw (c : Call) : Call := { c with mayBeSource := none }

namespace Routine

/-- The routine without the candidates of its calls and without its callers. -/
def unlinked (r : Routine) : Routine := { r with calls := r.calls.map Call.raw, calledBy := [] }

/-- The routine without its links, its identifier and its file. -/
def raw (r : Routine) : Routine := { r.unlinked with id := "", file := "" }

end Routine

/-- The class without its identifier and its file, its methods likewise. -/
def ClassDecl.raw (k : ClassDecl) : ClassDecl :=
  { k with id := "", file := "", methods := k.methods.map Routine.raw }

/-- The facts of a file without what resolution derives. -/
def FileFacts.raw (f : FileFacts) : FileFacts :=
  { f with methods := f.methods.map Routine.raw, classes := f.classes.map ClassDecl.raw }

namespace ProjectFacts

/-- The project without what resolution derives: the identifiers and files of its declarations, the
candidates of its calls, and the callers. -/
def raw (files : ProjectFacts) : ProjectFacts := files.map fun _ f => f.raw

/-- The project without candidates and callers. -/
def unlinked (files : ProjectFacts) : ProjectFacts :=
  files.map fun _ f => f.mapRoutines Routine.unlinked

end ProjectFacts

/-! ## Stamping -/

namespace Call

variable (path : String) (facts : FileFacts) (c : Call)

/-- Stamping a raw call gives the stamped call, raw. -/
lemma stamp_raw : c.raw.stamp path facts = (c.stamp path facts).raw := by
  by_cases hn : c.isNative
  · simp [stamp, raw, hn]
  · simp [stamp, raw, hn]

/-- The hints of a stamped call are those it would be given again. -/
lemma stamp_stamp : (c.stamp path facts).stamp path facts = c.stamp path facts := by
  -- a hint that a file does not give is the one that the call has already
  have hagain : ∀ x y : Option String, x.or (x.or y) = x.or y := by
    intro x y
    cases x <;> rfl
  by_cases hn : c.isNative
  · simp [stamp, hn, hagain]
  · simp [stamp, hn, hagain]

end Call

namespace Routine

variable (path : String) (facts : FileFacts) (r : Routine)

/-- Stamping a raw routine gives the stamped routine without candidates and callers. -/
lemma stamp_raw : r.raw.stamp path facts = (r.stamp path facts).unlinked := by
  simp only [stamp, raw, unlinked, List.map_map, Function.comp_def, Call.stamp_raw]

/-- A routine that was stamped is not changed by stamping it again. -/
lemma stamp_stamp : (r.stamp path facts).stamp path facts = r.stamp path facts := by
  simp only [stamp, List.map_map, Function.comp_def, Call.stamp_stamp]

end Routine

namespace ClassDecl

variable (path : String) (facts : FileFacts) (k : ClassDecl)

/-- Stamping a raw class gives the stamped class without candidates and callers. -/
lemma stamp_raw : k.raw.stamp path facts = (k.stamp path facts).mapMethods Routine.unlinked := by
  simp only [stamp, raw, mapMethods, List.map_map, Function.comp_def, Routine.stamp_raw]

/-- A class that was stamped is not changed by stamping it again. -/
lemma stamp_stamp : (k.stamp path facts).stamp path facts = k.stamp path facts := by
  simp only [stamp, List.map_map, Function.comp_def, Routine.stamp_stamp]

end ClassDecl

namespace FileFacts

variable (f : FileFacts) (p : String)

/-- Stamping a raw file gives the stamped file without candidates and callers. -/
lemma stamp_raw : f.raw.stamp p = (f.stamp p).mapRoutines Routine.unlinked := by
  -- only the imports and namespaces of a file give hints
  have hr : Routine.stamp (Text.slashed p) f.raw = Routine.stamp (Text.slashed p) f := rfl
  have hk : ClassDecl.stamp (Text.slashed p) f.raw = ClassDecl.stamp (Text.slashed p) f := rfl
  simp only [stamp, hr, hk]
  simp only [raw, mapRoutines, List.map_map, Function.comp_def, Routine.stamp_raw,
    ClassDecl.stamp_raw, ClassDecl.mapMethods]

/-- A file that was stamped is not changed by stamping it again. -/
lemma stamp_stamp : (f.stamp p).stamp p = f.stamp p := by
  have hr : Routine.stamp (Text.slashed p) (f.stamp p) = Routine.stamp (Text.slashed p) f := rfl
  have hk : ClassDecl.stamp (Text.slashed p) (f.stamp p) = ClassDecl.stamp (Text.slashed p) f := rfl
  rw [stamp, hr, hk]
  simp only [stamp, List.map_map, Function.comp_def, Routine.stamp_stamp, ClassDecl.stamp_stamp]

/-- A change of routines that does not change what they are raw does not change what the file is
raw. -/
lemma raw_mapRoutines {g : Routine → Routine} (hg : ∀ r, (g r).raw = r.raw) :
    (f.mapRoutines g).raw = f.raw := by
  simp only [raw, mapRoutines, ClassDecl.raw, List.map_map, Function.comp_def, hg]
  rfl

end FileFacts

namespace ProjectFacts

variable (files : ProjectFacts) (o : ResolveOptions)

/-- Stamping overwrites identifiers and files. -/
lemma stamp_raw : files.raw.stamp = files.stamp.unlinked := by
  apply Dict.ext_entries
  simp only [stamp, raw, unlinked, Dict.entries_map, List.map_map, Function.comp_def,
    FileFacts.stamp_raw]

/-- A stamped project is stamped once and for all. -/
lemma stamp_stamp : files.stamp.stamp = files.stamp := by
  apply Dict.ext_entries
  simp only [stamp, Dict.entries_map, List.map_map, Function.comp_def, FileFacts.stamp_stamp]

end ProjectFacts

/-! ## What the later passes read -/

/-- A routine enters the index by its summary. -/
lemma Index.ofProject_map_mapRoutines (files : ProjectFacts) {g : Routine → Routine}
    (hg : ∀ r, (g r).summary = r.summary) :
    ofProject (files.map fun _ f => f.mapRoutines g) = ofProject files := by
  have hfield : ∀ (field : Routine → String) (r : Routine),
      field (g r).summary = field r.summary := fun field r => congrArg field (hg r)
  have hid : ∀ r, (g r).id = r.id := hfield Routine.id
  have hname : ∀ r, (g r).name = r.name := hfield Routine.name
  have hfull : ∀ r, (g r).fullname = r.fullname := hfield Routine.fullname
  rw [ofProject_eq_extend, ofProject_eq_extend, ProjectFacts.functions_map_mapRoutines _ hname,
    ProjectFacts.classes_map_mapRoutines]
  simp only [extend, List.map_map, List.flatMap_map, Function.comp_def, ClassDecl.mapMethods,
    ClassDecl.summary, List.filter_map, hid, hname, hfull, hg]

/-- A routine enters the graph by its identifier and its calls. -/
lemma CallGraph.ofProject_map_mapRoutines (files : ProjectFacts) {g : Routine → Routine}
    (hid : ∀ r, (g r).id = r.id) (hcalls : ∀ r, (g r).calls = r.calls) :
    ofProject (files.map fun _ f => f.mapRoutines g) = ofProject files := by
  have hroutine : ∀ (h : CallGraph) (r : Routine), h.addRoutine (g r) = h.addRoutine r := by
    intro h r
    rw [addRoutine, addRoutine, hid, hcalls]
  have hfile : ∀ (h : CallGraph) (f : FileFacts), h.addFile (f.mapRoutines g) = h.addFile f := by
    intro h f
    simp only [addFile, FileFacts.routines_mapRoutines, List.foldl_map, hroutine]
  simp only [ofProject, Dict.values, Dict.entries_map, List.map_map, List.foldl_map, hfile,
    Function.comp_apply]

/-- The outcome of a call does not depend on its candidates. -/
lemma Index.resolve_raw (i : Index) (o : ResolveOptions) (c : Call) :
    i.resolve o c.raw = i.resolve o c := rfl

namespace ProjectFacts

variable (files : ProjectFacts) (o : ResolveOptions)

/-- A stamped project resolved. -/
def settle (stamped : ProjectFacts) (o : ResolveOptions) : Resolved :=
  let i := Index.ofProject stamped
  let found := stamped.resolveCalls i o
  let graph := CallGraph.ofProject found
  { files := found.annotate graph, tally := stamped.tally i o, graph }

/-- Resolution is stamping and then settling. -/
lemma resolve_eq_settle : files.resolve o = files.stamp.settle o := rfl

/-- Candidates that are there before do not matter for resolution, which gives its own. -/
lemma resolveCalls_unlinked (i : Index) :
    files.unlinked.resolveCalls i o = (files.resolveCalls i o).withoutCallers := by
  apply Dict.ext_entries
  simp only [unlinked, resolveCalls, withoutCallers, Dict.entries_map, List.map_map,
    Function.comp_def, FileFacts.mapRoutines_mapRoutines, Routine.unlinked]
  rfl

/-- Candidates that are there before do not matter for the tally. -/
lemma tally_unlinked (i : Index) : files.unlinked.tally i o = files.tally i o := by
  have hcalls : files.unlinked.calls = files.calls.map Call.raw :=
    calls_map_mapRoutines files fun _ => rfl
  simp only [tally, hcalls, List.foldl_map, Index.resolve_raw]

/-- What follows stamping reads neither candidates nor callers. -/
theorem settle_unlinked : files.unlinked.settle o = files.settle o := by
  have hindex : Index.ofProject files.unlinked = Index.ofProject files :=
    Index.ofProject_map_mapRoutines files fun _ => rfl
  have hgraph : ∀ found : ProjectFacts,
      CallGraph.ofProject found.withoutCallers = CallGraph.ofProject found := fun found =>
    CallGraph.ofProject_map_mapRoutines found (fun _ => rfl) fun _ => rfl
  have hannotate : ∀ (found : ProjectFacts) (g : CallGraph),
      found.withoutCallers.annotate g = found.annotate g := by
    intro found g
    apply Dict.ext_entries
    simp only [withoutCallers, annotate, Dict.entries_map, List.map_map, Function.comp_def,
      FileFacts.mapRoutines_mapRoutines]
  simp only [settle, hindex, resolveCalls_unlinked, hgraph, hannotate, tally_unlinked]

/-- Resolution does not see what it derives. -/
lemma resolve_raw : files.raw.resolve o = files.resolve o := by
  rw [resolve_eq_settle, stamp_raw, settle_unlinked, resolve_eq_settle]

/-- A resolved project differs from the stamped one in what resolution derives. -/
lemma raw_resolve : (files.resolve o).files.raw = files.stamp.raw := by
  rw [files_resolve]
  apply Dict.ext_entries
  have hsettled : ∀ r : Routine, (r.settled (Index.ofProject files.stamp) o
      (files.resolve o).graph).raw = r.raw := by
    intro r
    simp only [Routine.settled, Routine.raw, Routine.unlinked, List.map_map]
    rfl
  simp only [raw, Dict.entries_map, List.map_map, Function.comp_def,
    FileFacts.raw_mapRoutines _ hsettled]

end ProjectFacts

/-- **Resolution can be repeated, and stale records do no harm.** Resolving the records of a
resolved project again, with the same or with other options, gives the records, the tally and the
graph that resolving the project gives; and two projects that differ only in identifiers, files,
callers and candidates, whatever stands there, are resolved alike. -/
theorem resolve_again (files : ProjectFacts) (o : ResolveOptions) :
    (∀ o' : ResolveOptions, (files.resolve o').files.resolve o = files.resolve o) ∧
      ∀ stale : ProjectFacts, stale.raw = files.raw → stale.resolve o = files.resolve o := by
  constructor
  · intro o'
    calc (files.resolve o').files.resolve o
        = (files.resolve o').files.raw.resolve o := (ProjectFacts.resolve_raw _ o).symm
      _ = files.stamp.raw.resolve o := by rw [ProjectFacts.raw_resolve]
      _ = files.stamp.resolve o := ProjectFacts.resolve_raw _ o
      _ = files.resolve o := by
        rw [ProjectFacts.resolve_eq_settle, ProjectFacts.stamp_stamp,
          ProjectFacts.resolve_eq_settle]
  · intro stale h
    rw [← ProjectFacts.resolve_raw stale, h, ProjectFacts.resolve_raw]

/-- A file with a class and a call of its method, in which all that resolution derives is given. -/
def ProjectFacts.errand (id file : String) (candidates : Option (Dict String))
    (callers : List String) : ProjectFacts where
  entries :=
    [("a.php",
      { methods :=
          [{ id, file, name := fileLevelName, fullname := fileLevelName, startLine := 5,
             endLine := 5, kind := .general, calledBy := callers,
             calls := [{ name := "go", fullname := "A->go", startLine := 5, endLine := 5,
                         object := some "$a", className := some "A", kind := .classMethod,
                         mayBeSource := candidates }] }],
        classes :=
          [{ id, file, name := "A", startLine := 2, endLine := 4,
             methods := [{ id, file, name := "go", fullname := "A->go", className := some "A",
                           startLine := 3, endLine := 3, kind := .classMethod,
                           calledBy := callers }] }] })]
  ascending := by simp

open ProjectFacts in
/-- The derived fields of a run on other files do not keep the method from being found. -/
theorem resolve_again_errand :
    (errand "m1" "old.php" (some (.ofList [("m2", "old.php")])) ["m3"]).raw =
      (errand "" "" none []).raw ∧
    (errand "m1" "old.php" (some (.ofList [("m2", "old.php")])) ["m3"]).resolve {} =
      (errand "" "" none []).resolve {} ∧
    ((errand "" "" none []).resolve {}).files.resolve {} = (errand "" "" none []).resolve {} ∧
    ((errand "" "" none []).resolve {}).files.calls.map Call.candidateIds =
      [[Ident.routine "a.php" (some "A") "go" 3 3]] := by
  obtain ⟨hagain, hstale⟩ := resolve_again (errand "" "" none []) {}
  exact ⟨rfl, hstale _ rfl, hagain {}, by decide +kernel⟩

end PhpCalls
