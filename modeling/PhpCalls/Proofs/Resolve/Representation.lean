import PhpCalls.Proofs.Resolve.Index

set_option autoImplicit false

/-!
# What an index represents

An index lists identifiers by names and finds declarations by identifiers. The pass that builds it
treats repetitions in two ways: in a list the first occurrence of an identifier counts, among the
declarations the last. Here the whole is stated as one invariant of the index and the declarations
that it was built from, whatever their identifiers are: they may be shared, also between
declarations of different names, or empty.

## Main definitions

* `KeysOnce`: a list of the keys of certain elements, each once, in the order of first occurrence.
* `Index.Represents`: the lists, the declarations and the numbers of an index fit functions and
  classes.

## Main results

* `keysOnce_eraseDups`: dropping repetitions gives such a list.
* `index_represents_declarations`: the index of a project fits its functions and classes.
-/

namespace PhpCalls

/-! ## Lists of keys -/

section KeysOnce

variable {α : Type}

/-- The texts are the keys of the elements that pass a test. None is there twice, and they are in
the order in which they first occur. -/
structure KeysOnce (key : α → String) (p : α → Bool) (l : List α) (texts : List String) : Prop where
  nodup : texts.Nodup
  ordered : texts.Pairwise fun s t =>
    ((l.filter p).map key).idxOf s < ((l.filter p).map key).idxOf t
  mem_iff (s : String) : s ∈ texts ↔ ∃ a ∈ l, p a = true ∧ key a = s

/-- Dropping repetitions keeps the first occurrence of each key. -/
theorem keysOnce_eraseDups (key : α → String) (p : α → Bool) (l : List α) :
    KeysOnce key p l ((l.filter p).map key).eraseDups where
  nodup := by
    refine (pairwise_idxOf_eraseDups _).imp ?_
    rintro s t hlt rfl
    exact absurd hlt (Nat.lt_irrefl _)
  ordered := pairwise_idxOf_eraseDups _
  mem_iff s := by simp [List.mem_eraseDups, and_assoc]

end KeysOnce

/-! ## The invariant -/

namespace Index

/-- An index fits functions and classes that are given in the order of their declaration. -/
structure Represents (i : Index) (functions : List Routine) (classes : List ClassDecl) : Prop where
  /-- Under a name stand the identifiers of the functions of this name. -/
  functionsNamed (name : String) :
    KeysOnce Routine.id (fun f => f.name = name) functions (i.functionsNamed name)
  /-- Under a name stand the identifiers of the classes of this name. -/
  classesNamed (name : String) :
    KeysOnce ClassDecl.id (fun k => k.name = name) classes (i.classesNamed name)
  /-- Under a full name stand the identifiers of the classes with a method of this full name. -/
  classesWithFullname (fullname : String) :
    KeysOnce ClassDecl.id (fun k => k.methods.any fun m => m.fullname = fullname) classes
      (i.classesWithFullname fullname)
  /-- Under a name stand the identifiers of the classes with a method of this name. Methods whose
  names are those of hooks in some letter case are passed over. -/
  classesWithMethod (name : String) :
    KeysOnce ClassDecl.id
      (fun k => k.methods.any fun m =>
        m.name = name && !(Builtin.magicNames.map Text.foldCase).contains (Text.foldCase m.name))
      classes (i.classesWithMethod name)
  /-- Every function that is listed is found. -/
  isSome_function? (name id : String) (h : id ∈ i.functionsNamed name) :
    (i.function? id).isSome = true
  /-- Every class that is listed is found. -/
  isSome_class? (name id : String)
    (h : id ∈ i.classesNamed name ∨ id ∈ i.classesWithFullname name ∨
      id ∈ i.classesWithMethod name) :
    (i.class? id).isSome = true
  /-- Of the functions of an identifier the last is found, without calls and callers. -/
  function? (id : String) :
    i.function? id = (functions.filter fun f => f.id = id).getLast?.map fun f =>
      { f with calls := [], calledBy := [] }
  /-- Of the classes of an identifier the last is found, its methods without calls and callers. -/
  class? (id : String) :
    i.class? id = (classes.filter fun k => k.id = id).getLast?.map fun k =>
      { k with methods := k.methods.map fun m => { m with calls := [], calledBy := [] } }
  /-- Functions are counted by their identifiers. -/
  functionCount : i.functionCount = (functions.map Routine.id).toFinset.card
  /-- Classes are counted by their identifiers. -/
  classCount : i.classCount = (classes.map ClassDecl.id).toFinset.card

/-! ## The parts of the invariant -/

/-- A name is that of a hook if it is among the names of hooks up to letter case. -/
lemma isMagic_eq_contains (name : String) :
    Builtin.isMagic name =
      (Builtin.magicNames.map Text.foldCase).contains (Text.foldCase name) := by
  rw [Builtin.isMagic, List.contains_eq_any_beq, List.any_map]
  refine congrArg (List.any _) (funext fun hook => ?_)
  exact Bool.beq_comm

/-- An index has a function for an identifier exactly if the project has one. -/
lemma isSome_function?_iff (files : ProjectFacts) (id : String) :
    ((ofProject files).function? id).isSome = true ↔ ∃ f ∈ files.functions, f.id = id := by
  simp [function?_ofProject]

/-- An index has a class for an identifier exactly if the project has one. -/
lemma isSome_class?_iff (files : ProjectFacts) (id : String) :
    ((ofProject files).class? id).isSome = true ↔ ∃ k ∈ files.classes, k.id = id := by
  simp [class?_ofProject]

/-- A map by keys has as many entries as there are different keys. -/
lemma size_ofList_map {α β : Type} (key : α → String) (value : α → β) (l : List α) :
    (Dict.ofList (l.map fun a => (key a, value a))).size = (l.map key).toFinset.card := by
  rw [Dict.size_ofList, List.map_map]
  rfl

/-- The index counts the identifiers of functions. -/
lemma functionCount_ofProject (files : ProjectFacts) :
    (ofProject files).functionCount = (files.functions.map Routine.id).toFinset.card := by
  rw [functionCount, ofProject_eq_extend]
  exact size_ofList_map Routine.id Routine.summary files.functions

/-- The index counts the identifiers of classes. -/
lemma classCount_ofProject (files : ProjectFacts) :
    (ofProject files).classCount = (files.classes.map ClassDecl.id).toFinset.card := by
  rw [classCount, ofProject_eq_extend]
  exact size_ofList_map ClassDecl.id ClassDecl.summary files.classes

/-- The list of a name has the functions of that name. -/
lemma keysOnce_functionsNamed (files : ProjectFacts) (name : String) :
    KeysOnce Routine.id (fun f => f.name = name) files.functions
      ((ofProject files).functionsNamed name) := by
  rw [functionsNamed_ofProject]
  exact keysOnce_eraseDups _ _ _

/-- The list of a name has the classes of that name. -/
lemma keysOnce_classesNamed (files : ProjectFacts) (name : String) :
    KeysOnce ClassDecl.id (fun k => k.name = name) files.classes
      ((ofProject files).classesNamed name) := by
  rw [classesNamed_ofProject]
  exact keysOnce_eraseDups _ _ _

/-- The list of a full name has the classes with a method of that full name. -/
lemma keysOnce_classesWithFullname (files : ProjectFacts) (fullname : String) :
    KeysOnce ClassDecl.id (fun k => k.methods.any fun m => m.fullname = fullname) files.classes
      ((ofProject files).classesWithFullname fullname) := by
  rw [classesWithFullname_ofProject, eraseDups_flatMap]
  exact keysOnce_eraseDups _ _ _

/-- The list of the name of a method has the classes with such a method, which is no hook. -/
lemma keysOnce_classesWithMethod (files : ProjectFacts) (name : String) :
    KeysOnce ClassDecl.id
      (fun k => k.methods.any fun m =>
        m.name = name && !(Builtin.magicNames.map Text.foldCase).contains (Text.foldCase m.name))
      files.classes ((ofProject files).classesWithMethod name) := by
  rw [classesWithMethod_ofProject, eraseDups_flatMap]
  simp only [isMagic_eq_contains, Bool.and_comm]
  exact keysOnce_eraseDups _ _ _

end Index

/-- **What an index represents.** The index of a project fits the functions of the project, the file
level aside, and its classes, in the order of paths and places, whatever their identifiers are. A
name leads to the identifiers of its declarations, each once and the first to occur first, and every
identifier that is listed leads to a declaration: the last one that has it, without calls and
callers. As many declarations are counted as there are identifiers.

**Proof sketch.** The pass fills each map by the declarations alone (`Index.ofProject_eq_extend`).
So a list is that of all identifiers of a name without the repetitions, and a declaration that gives
its identifier to some list is one of those among which the last is found. -/
theorem index_represents_declarations (files : ProjectFacts) :
    (Index.ofProject files).Represents files.functions files.classes where
  functionsNamed := Index.keysOnce_functionsNamed files
  classesNamed := Index.keysOnce_classesNamed files
  classesWithFullname := Index.keysOnce_classesWithFullname files
  classesWithMethod := Index.keysOnce_classesWithMethod files
  isSome_function? name id h := by
    obtain ⟨f, hf, -, hid⟩ := ((Index.keysOnce_functionsNamed files name).mem_iff id).1 h
    exact (Index.isSome_function?_iff files id).2 ⟨f, hf, hid⟩
  isSome_class? name id h := by
    rw [Index.isSome_class?_iff]
    rcases h with h | h | h
    · obtain ⟨k, hk, -, hid⟩ := ((Index.keysOnce_classesNamed files name).mem_iff id).1 h
      exact ⟨k, hk, hid⟩
    · obtain ⟨k, hk, -, hid⟩ := ((Index.keysOnce_classesWithFullname files name).mem_iff id).1 h
      exact ⟨k, hk, hid⟩
    · obtain ⟨k, hk, -, hid⟩ := ((Index.keysOnce_classesWithMethod files name).mem_iff id).1 h
      exact ⟨k, hk, hid⟩
  function? id := by
    rw [Index.function?_ofProject, List.getLast?_filter]
    rfl
  class? id := by
    rw [Index.class?_ofProject, List.getLast?_filter]
    rfl
  functionCount := Index.functionCount_ofProject files
  classCount := Index.classCount_ofProject files

end PhpCalls
