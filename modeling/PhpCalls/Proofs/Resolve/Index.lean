import Mathlib.Data.List.Induction
import PhpCalls.Proofs.Dict
import PhpCalls.Proofs.List
import PhpCalls.Resolve.Index

set_option autoImplicit false

/-!
# What the index holds

The index is built in one pass that fills six maps at once. Here each map is described on its own,
by the functions and the classes of the project in the order of paths and places: under a name stand
the identifiers of its declarations, each once and in the order of first occurrence, and at an
identifier stands the summary of its last declaration.

## Main definitions

* `ProjectFacts.functions`, `ProjectFacts.classes`: the declarations of a project.
* `Index.extend`: the index with more functions and classes, map by map.

## Main results

* `Index.ofProject_eq_extend`: the one pass fills each map by the declarations alone.
* `Index.functionsNamed_ofProject`, `Index.classesNamed_ofProject`,
  `Index.classesWithFullname_ofProject`, `Index.classesWithMethod_ofProject`: the look-ups by name.
* `Index.function?_ofProject`, `Index.class?_ofProject`: the look-ups by identifier.
-/

namespace PhpCalls

/-! ## Declarations of a project -/

namespace ProjectFacts

/-- The functions of a project, by path and place. The file level is no function. -/
def functions (files : ProjectFacts) : List Routine :=
  files.values.flatMap fun f => f.methods.filter fun r => r.name ≠ fileLevelName

/-- The classes of a project, by path and place. -/
def classes (files : ProjectFacts) : List ClassDecl := files.values.flatMap FileFacts.classes

/-- No two functions of a project have one identifier, and no two classes. -/
structure DistinctIds (files : ProjectFacts) : Prop where
  functions : (files.functions.map Routine.id).Nodup
  classes : (files.classes.map ClassDecl.id).Nodup

end ProjectFacts

/-! ## Registries -/

namespace Registry

/-- A registry with identifiers put under names, one after the other. -/
def registerAll (r : Registry) (pairs : List (String × String)) : Registry :=
  pairs.foldl (fun r p => r.register p.1 p.2) r

/-- Pairs of two lists are registered one list after the other. -/
lemma registerAll_append (r : Registry) (ps qs : List (String × String)) :
    r.registerAll (ps ++ qs) = (r.registerAll ps).registerAll qs := by
  simp [registerAll]

/-- What stands under a name after an identifier was put under another or the same one. -/
lemma ids_register (r : Registry) (name id m : String) :
    (r.register name id).ids m =
      if name = m ∧ id ∉ r.ids m then r.ids m ++ [id] else r.ids m := by
  by_cases hin : id ∈ r.ids name
  · by_cases hm : name = m
    · subst hm
      simp [register, hin]
    · simp [register, hin, hm]
  · by_cases hm : name = m
    · subst hm
      have h : (r.register name id).get? name = some (r.ids name ++ [id]) := by
        simp [register, hin]
      simp [ids, h] at hin ⊢
      simp [hin]
    · have h : (r.register name id).get? m = r.get? m := by
        simp [register, hin, hm]
      simp [ids, h, hm]

/-- Under a name stand the identifiers that were put there, each once, in the order of first
occurrence.

**Proof sketch.** Induction on the pairs from the right. The last pair adds its identifier exactly
if the name is the one asked for and no earlier pair has put the identifier there. -/
theorem ids_registerAll (pairs : List (String × String)) (name : String) :
    (Registry.registerAll .empty pairs).ids name =
      ((pairs.filter fun p => p.1 = name).map Prod.snd).eraseDups := by
  induction pairs using List.reverseRecOn with
  | nil => rfl
  | append_singleton pairs p ih =>
    rw [registerAll_append]
    change ((Registry.registerAll .empty pairs).register p.1 p.2).ids name = _
    rw [ids_register, ih, List.filter_append, List.map_append, List.eraseDups_append]
    generalize (pairs.filter fun p => p.1 = name).map Prod.snd = known
    by_cases hn : p.1 = name
    · by_cases hin : p.2 ∈ known
      · simp [hn, hin, List.removeAll]
      · simp [hn, hin, List.removeAll, List.eraseDups_cons]
    · simp [hn, List.removeAll]

end Registry

/-! ## The one pass, map by map -/

namespace Index

/-- The index with more functions and classes, each map filled on its own. -/
def extend (i : Index) (fs : List Routine) (ks : List ClassDecl) : Index where
  functions := i.functions.insertAll (fs.map fun f => (f.id, f.summary))
  functionNames := i.functionNames.registerAll (fs.map fun f => (f.name, f.id))
  classes := i.classes.insertAll (ks.map fun k => (k.id, k.summary))
  classNames := i.classNames.registerAll (ks.map fun k => (k.name, k.id))
  fullnames :=
    i.fullnames.registerAll (ks.flatMap fun k => k.methods.map fun m => (m.fullname, k.id))
  methodNames :=
    i.methodNames.registerAll (ks.flatMap fun k =>
      (k.methods.filter fun m => !Builtin.isMagic m.name).map fun m => (m.name, k.id))

/-- An index that is extended by nothing is the same. -/
lemma extend_nil (i : Index) : i.extend [] [] = i := rfl

/-- An index may be extended in two turns. -/
lemma extend_extend (i : Index) (fs gs : List Routine) (ks ls : List ClassDecl) :
    (i.extend fs ks).extend gs ls = i.extend (fs ++ gs) (ks ++ ls) := by
  simp [extend, Dict.insertAll_append, Registry.registerAll_append]

/-- A function extends the index, unless it stands for the code of a file itself. -/
lemma addFunction_eq_extend (i : Index) (f : Routine) :
    i.addFunction f = i.extend ([f].filter fun r => r.name ≠ fileLevelName) [] := by
  by_cases h : f.name = fileLevelName
  · simp [addFunction, h, extend_nil]
  · simp [addFunction, h, extend, Dict.insertAll, Registry.registerAll]

/-- Functions that are added one by one extend the index at once. -/
lemma foldl_addFunction (fs : List Routine) (i : Index) :
    fs.foldl addFunction i = i.extend (fs.filter fun r => r.name ≠ fileLevelName) [] := by
  induction fs generalizing i with
  | nil => rfl
  | cons f fs ih =>
    rw [List.foldl_cons, ih, addFunction_eq_extend, extend_extend, ← List.filter_append]
    rfl

/-- The methods of a class fill the two maps by the names of methods. -/
lemma foldl_addMethod (classId : String) (ms : List Routine) (i : Index) :
    ms.foldl (addMethod classId) i =
      { i with
        fullnames := i.fullnames.registerAll (ms.map fun m => (m.fullname, classId))
        methodNames := i.methodNames.registerAll
          ((ms.filter fun m => !Builtin.isMagic m.name).map fun m => (m.name, classId)) } := by
  induction ms generalizing i with
  | nil => rfl
  | cons m ms ih =>
    rw [List.foldl_cons, ih]
    by_cases h : Builtin.isMagic m.name <;> simp [addMethod, h, Registry.registerAll]

/-- A class extends the index. -/
lemma addClass_eq_extend (i : Index) (k : ClassDecl) : i.addClass k = i.extend [] [k] := by
  simp [addClass, foldl_addMethod, extend, Dict.insertAll, Registry.registerAll]

/-- Classes that are added one by one extend the index at once. -/
lemma foldl_addClass (ks : List ClassDecl) (i : Index) :
    ks.foldl addClass i = i.extend [] ks := by
  induction ks generalizing i with
  | nil => rfl
  | cons k ks ih =>
    rw [List.foldl_cons, ih, addClass_eq_extend, extend_extend]
    rfl

/-- A file extends the index by its functions and classes. -/
lemma addFile_eq_extend (i : Index) (f : FileFacts) :
    i.addFile f = i.extend (f.methods.filter fun r => r.name ≠ fileLevelName) f.classes := by
  rw [addFile, foldl_addFunction, foldl_addClass, extend_extend]
  simp

/-- The pass over the files fills each map by the functions and the classes of the project. -/
theorem ofProject_eq_extend (files : ProjectFacts) :
    ofProject files = Index.extend {} files.functions files.classes := by
  have hgen : ∀ (fs : List FileFacts) (i : Index), fs.foldl addFile i =
      i.extend (fs.flatMap fun f => f.methods.filter fun r => r.name ≠ fileLevelName)
        (fs.flatMap FileFacts.classes) := by
    intro fs
    induction fs with
    | nil => intro i; rfl
    | cons f fs ih =>
      intro i
      rw [List.foldl_cons, ih, addFile_eq_extend, extend_extend]
      rfl
  exact hgen files.values {}

/-! ## Look-ups by name -/

/-- Under the name of functions stand their identifiers. -/
theorem functionsNamed_ofProject (files : ProjectFacts) (name : String) :
    (ofProject files).functionsNamed name =
      ((files.functions.filter fun f => f.name = name).map Routine.id).eraseDups := by
  rw [functionsNamed, ofProject_eq_extend]
  simp only [extend]
  rw [Registry.ids_registerAll, List.filter_map, List.map_map]
  rfl

/-- Under the name of classes stand their identifiers. -/
theorem classesNamed_ofProject (files : ProjectFacts) (name : String) :
    (ofProject files).classesNamed name =
      ((files.classes.filter fun k => k.name = name).map ClassDecl.id).eraseDups := by
  rw [classesNamed, ofProject_eq_extend]
  simp only [extend]
  rw [Registry.ids_registerAll, List.filter_map, List.map_map]
  rfl

/-- Under the full name of methods stand the identifiers of their classes. -/
theorem classesWithFullname_ofProject (files : ProjectFacts) (fullname : String) :
    (ofProject files).classesWithFullname fullname =
      (files.classes.flatMap fun k =>
        (k.methods.filter fun m => m.fullname = fullname).map fun _ => k.id).eraseDups := by
  rw [classesWithFullname, ofProject_eq_extend]
  simp only [extend]
  rw [Registry.ids_registerAll, List.filter_flatMap, List.map_flatMap]
  congr 2
  funext k
  rw [List.filter_map, List.map_map]
  rfl

/-- Under the name of methods that are no hooks stand the identifiers of their classes. -/
theorem classesWithMethod_ofProject (files : ProjectFacts) (name : String) :
    (ofProject files).classesWithMethod name =
      (files.classes.flatMap fun k =>
        (k.methods.filter fun m => !Builtin.isMagic m.name && m.name = name).map
          fun _ => k.id).eraseDups := by
  rw [classesWithMethod, ofProject_eq_extend]
  simp only [extend]
  rw [Registry.ids_registerAll, List.filter_flatMap, List.map_flatMap]
  congr 2
  funext k
  rw [List.filter_map, List.map_map, List.filter_filter]
  change (List.filter _ k.methods).map (fun _ => k.id) = _
  refine congrArg _ (List.filter_congr fun m _ => ?_)
  simp [Bool.and_comm]

/-! ## Look-ups by identifier -/

/-- At an identifier stands the summary of its last function. -/
theorem function?_ofProject (files : ProjectFacts) (id : String) :
    (ofProject files).function? id =
      (files.functions.reverse.find? fun f => f.id = id).map Routine.summary := by
  rw [function?, ofProject_eq_extend]
  simp only [extend]
  rw [Dict.get?_insertAll, Dict.get?_empty, Option.or_none, ← List.map_reverse, List.find?_map,
    Option.map_map]
  rfl

/-- At an identifier stands the summary of its last class. -/
theorem class?_ofProject (files : ProjectFacts) (id : String) :
    (ofProject files).class? id =
      (files.classes.reverse.find? fun k => k.id = id).map ClassDecl.summary := by
  rw [class?, ofProject_eq_extend]
  simp only [extend]
  rw [Dict.get?_insertAll, Dict.get?_empty, Option.or_none, ← List.map_reverse, List.find?_map,
    Option.map_map]
  rfl

/-- A function that is found is one of the project. -/
lemma mem_functions_of_function? {files : ProjectFacts} {id : String} {r : Routine}
    (h : (ofProject files).function? id = some r) : ∃ f ∈ files.functions, r = f.summary := by
  rw [function?_ofProject, Option.map_eq_some_iff] at h
  obtain ⟨f, hf, rfl⟩ := h
  exact ⟨f, by simpa using List.mem_of_find?_eq_some hf, rfl⟩

/-- A class that is found is one of the project. -/
lemma mem_classes_of_class? {files : ProjectFacts} {id : String} {k : ClassDecl}
    (h : (ofProject files).class? id = some k) : ∃ l ∈ files.classes, k = l.summary := by
  rw [class?_ofProject, Option.map_eq_some_iff] at h
  obtain ⟨l, hl, rfl⟩ := h
  exact ⟨l, by simpa using List.mem_of_find?_eq_some hl, rfl⟩

/-! ## Distinct identifiers -/

section DistinctFunctions

variable {files : ProjectFacts} (h : (files.functions.map Routine.id).Nodup)

include h

/-- Under the name of functions stand the identifiers of all of them. -/
lemma functionsNamed_of_nodup (name : String) :
    (ofProject files).functionsNamed name =
      (files.functions.filter fun f => f.name = name).map Routine.id := by
  rw [functionsNamed_ofProject]
  exact eraseDups_eq_self (h.sublist (List.filter_sublist.map _))

/-- The functions at the identifiers of functions of the project are these functions. -/
lemma filterMap_function?_of_nodup {fs : List Routine} (hfs : fs ⊆ files.functions) :
    (fs.map Routine.id).filterMap (ofProject files).function? = fs.map Routine.summary := by
  rw [List.filterMap_map, ← List.filterMap_eq_map]
  refine List.filterMap_congr fun f hf => ?_
  rw [Function.comp_apply, function?_ofProject, reverse_find?_of_nodup h (hfs hf)]
  rfl

end DistinctFunctions

section DistinctClasses

variable {files : ProjectFacts} (h : (files.classes.map ClassDecl.id).Nodup)

include h

/-- Under the name of classes stand the identifiers of all of them. -/
lemma classesNamed_of_nodup (name : String) :
    (ofProject files).classesNamed name =
      (files.classes.filter fun k => k.name = name).map ClassDecl.id := by
  rw [classesNamed_ofProject]
  exact eraseDups_eq_self (h.sublist (List.filter_sublist.map _))

/-- Under the full name of methods stand the identifiers of the classes that own such a method. -/
lemma classesWithFullname_of_nodup (fullname : String) :
    (ofProject files).classesWithFullname fullname =
      (files.classes.filter fun k => k.methods.any fun m => m.fullname = fullname).map
        ClassDecl.id := by
  rw [classesWithFullname_ofProject, eraseDups_flatMap_const _ _ _ h]

/-- Under the name of methods stand the identifiers of the classes that own such a method that is no
hook. -/
lemma classesWithMethod_of_nodup (name : String) :
    (ofProject files).classesWithMethod name =
      (files.classes.filter fun k =>
        k.methods.any fun m => !Builtin.isMagic m.name && m.name = name).map ClassDecl.id := by
  rw [classesWithMethod_ofProject, eraseDups_flatMap_const _ _ _ h]

/-- The classes at the identifiers of classes of the project are these classes. -/
lemma filterMap_class?_of_nodup {ks : List ClassDecl} (hks : ks ⊆ files.classes) :
    (ks.map ClassDecl.id).filterMap (ofProject files).class? = ks.map ClassDecl.summary := by
  rw [List.filterMap_map, ← List.filterMap_eq_map]
  refine List.filterMap_congr fun k hk => ?_
  rw [Function.comp_apply, class?_ofProject, reverse_find?_of_nodup h (hks hk)]
  rfl

end DistinctClasses

end Index

end PhpCalls
