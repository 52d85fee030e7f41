import PhpCalls.Proofs.Facts.Constructors
import PhpCalls.Proofs.Resolve.Identity
import PhpCalls.Proofs.Resolve.Order

set_option autoImplicit false

/-!
# Spellings of the constructor

The name of the constructor is read without regard to letter case: calls of it and declarations of
it are told by their folded names, a class declares it under one full name, and in a class all its
spellings are found. Only the first look-up, by the full name of the call, compares what is written:
the full name of a call that spells the constructor in its own way is that of no method, so that the
call is looked for in all classes of its class name, those without a constructor among them.

## Main definitions

* `ProjectFacts.Respelled`: the same project, its constructors spelled in other ways.
* `ProjectFacts.Renaming`: how identifiers change with the spelling.
* `ProjectFacts.Splits`: the look-up by full name and that by class name find different classes.

## Main results

* `Index.classesFor_spelled`: the classes that a call of the constructor is looked for in.
* `Scan.outcome_map_rename`: outcomes follow a renaming of identifiers.
* `resolve_respelled`: when the spelling of the constructor matters to a call.
-/

namespace PhpCalls

open Syntax

/-! ## Calls of the constructor -/

/-- Stamping leaves the names of a call. -/
lemma Call.SpellsConstructor.stamp {c : Call} (h : c.SpellsConstructor) (path : String)
    (f : FileFacts) : (c.stamp path f).SpellsConstructor := by
  unfold Call.stamp
  split <;> exact h

/-- Every call of the constructor in a project spells it. -/
lemma ProjectFacts.spellsConstructor_of_mem_calls (trees : Dict Node) {c : Call}
    (h : c ∈ (ofTrees trees).stamp.calls) (hc : c.kind = .construct) : c.SpellsConstructor := by
  obtain ⟨f, hf, hmem⟩ := List.mem_flatMap.1 h
  obtain ⟨path, root, -, rfl⟩ := exists_of_mem_values_stamp hf
  have hcalls := FileFacts.calls_stamp (.ofTree root) path
  rw [FileFacts.calls] at hcalls
  rw [hcalls] at hmem
  obtain ⟨d, hd, rfl⟩ := List.mem_map.1 hmem
  obtain ⟨r, hr, hd⟩ := List.mem_flatMap.1 hd
  obtain ⟨a, -, e, he, rfl⟩ := FileFacts.exists_contribution hr hd
  rw [Call.kind_stamp] at hc
  exact (Call.spellsConstructor_of_ofPlace? (Owner.of_mem_contributions he).2 hc).stamp _ _

/-! ## Look-ups by spellings -/

namespace ProjectFacts

/-- The identifiers of the classes of a name that have a constructor. -/
def constructed (files : ProjectFacts) (name : String) : List String :=
  ((files.classes.filter fun k => k.name = name && k.hasConstructor).map ClassDecl.id).eraseDups

/-- The identifiers of the classes of a name. -/
def named (files : ProjectFacts) (className : Option String) : List String :=
  ((files.classes.filter fun k => className = some k.name).map ClassDecl.id).eraseDups

/-- The identifiers of the classes that a call of the constructor is looked for in: of those of the
owner's name that have a constructor, if there are any and the call is spelled like full names, and
of those of the class name otherwise. -/
def searched (files : ProjectFacts) (className : Option String) (owner joint spelling : String) :
    List String :=
  if joint = "::" ∧ spelling = Builtin.constructor ∧ files.constructed owner ≠ [] then
    files.constructed owner
  else files.named className

/-- Some classes of the owner's name have a constructor, and these are not the classes of the class
name. -/
def Splits (files : ProjectFacts) (className : Option String) (owner : String) : Prop :=
  files.constructed owner ≠ [] ∧ files.constructed owner ≠ files.named className
  deriving Decidable

variable {trees : Dict Node} (hnames : ∀ root ∈ trees.values, root.DeclaresNames)

include hnames

/-- A method of a stamped class is known by a name, and has the full name that its class makes. -/
lemma fullname_and_isName_of_mem_methods {k : ClassDecl} (hk : k ∈ (ofTrees trees).stamp.classes)
    {m : Routine} (hm : m ∈ k.methods) :
    m.fullname = methodFullname k.name m.name m.isStatic ∧ Lexeme.IsName m.name.toList := by
  obtain ⟨p, root, hp, l, hl, rfl⟩ := exists_of_mem_classes hk
  obtain ⟨r, hr, rfl⟩ := List.mem_map.1 hm
  have hroot : root.DeclaresNames := hnames root (List.mem_map_of_mem hp)
  have hroutine : r ∈ (FileFacts.ofTree root).routines :=
    List.mem_append_right _ (List.mem_flatMap.2 ⟨l, hl, hr⟩)
  have hfullname : r.fullname = methodFullname l.name r.name r.isStatic :=
    FileFacts.fullname_of_mem_methods hl hr
  exact ⟨hfullname, (FileFacts.isNamed_of_mem_routines hroot hroutine).name⟩

/-- The classes with a method of the full name of a call of the constructor. -/
lemma classesWithFullname_spelled (owner : String) {joint spelling : String} (hj : joint ∈ joints)
    (hspelling : Builtin.isConstructor spelling = true) :
    (Index.ofProject (ofTrees trees).stamp).classesWithFullname (owner ++ joint ++ spelling) =
      if joint = "::" ∧ spelling = Builtin.constructor then (ofTrees trees).stamp.constructed owner
      else [] := by
  have hfilter : ((ofTrees trees).stamp.classes.filter fun k =>
      k.methods.any fun m => m.fullname = owner ++ joint ++ spelling) =
        (ofTrees trees).stamp.classes.filter fun k =>
          (joint = "::" ∧ spelling = Builtin.constructor) &&
            (k.name = owner && k.hasConstructor) := by
    refine List.filter_congr fun k hk => ?_
    have hmethod (m : Routine) (hm : m ∈ k.methods) :
        m.fullname = owner ++ joint ++ spelling ↔
          k.name = owner ∧ Builtin.isConstructor m.name = true ∧
          joint = "::" ∧ spelling = Builtin.constructor := by
      obtain ⟨hfullname, hname⟩ := fullname_and_isName_of_mem_methods hnames hk hm
      rw [hfullname, methodFullname_eq_iff hj hspelling hname]
    rw [Bool.eq_iff_iff]
    simp only [List.any_eq_true, Bool.and_eq_true, decide_eq_true_eq, ClassDecl.hasConstructor]
    constructor
    · rintro ⟨m, hm, hsame⟩
      obtain ⟨hname, hcon, hspelled⟩ := (hmethod m hm).1 hsame
      exact ⟨hspelled, hname, m, hm, hcon⟩
    · rintro ⟨hspelled, hname, m, hm, hcon⟩
      exact ⟨m, hm, (hmethod m hm).2 ⟨hname, hcon, hspelled⟩⟩
  rw [Index.classesWithFullname_ofProject, eraseDups_flatMap, hfilter]
  split
  case isTrue h => simp [h, constructed]
  case isFalse h => simp [h]

end ProjectFacts

/-- The classes that a call of the constructor is looked for in. -/
lemma Index.classesFor_of_construct (files : ProjectFacts) {c : Call} (hc : c.kind = .construct) :
    (ofProject files).classesFor c =
      if (ofProject files).classesWithFullname c.fullname = [] then files.named c.className
      else (ofProject files).classesWithFullname c.fullname := by
  have hnamed :
      (c.className.map (ofProject files).classesNamed).getD [] = files.named c.className := by
    cases c.className with
    | none => simp [ProjectFacts.named]
    | some name => simp [ProjectFacts.named, classesNamed_ofProject, eq_comm]
  rw [classesFor, hnamed]
  cases (ofProject files).classesWithFullname c.fullname with
  | cons id ids => rfl
  | nil =>
    cases files.named c.className with
    | cons id ids => rfl
    | nil => simp [hc]

/-! ## Projects in other spellings -/

/-- The same routine; if it is a constructor, it may be spelled in another way. -/
def Routine.Respelled (r r' : Routine) : Prop :=
  r' = { r with name := r'.name } ∧
    (r'.name = r.name ∨ Builtin.isConstructor r.name = true ∧ Builtin.isConstructor r'.name = true)
  deriving Decidable

/-- The same class, its constructors spelled in other ways. -/
def ClassDecl.Respelled (k k' : ClassDecl) : Prop :=
  k' = { k with methods := k'.methods } ∧ List.Forall₂ Routine.Respelled k.methods k'.methods
  deriving Decidable

/-- The same file, the constructors of its classes spelled in other ways. -/
def FileFacts.Respelled (f f' : FileFacts) : Prop :=
  f' = { f with classes := f'.classes } ∧ List.Forall₂ ClassDecl.Respelled f.classes f'.classes
  deriving Decidable

/-- The same project, the constructors of its classes spelled in other ways. -/
def ProjectFacts.Respelled (files files' : ProjectFacts) : Prop :=
  List.Forall₂ (fun e e' : String × FileFacts => e.1 = e'.1 ∧ e.2.Respelled e'.2) files.entries
    files'.entries
  deriving Decidable

/-- A project whose constructors are all declared in one spelling. -/
def ProjectFacts.withConstructor (files : ProjectFacts) (spelling : String) : ProjectFacts :=
  files.map fun _ f =>
    { f with
      classes := f.classes.map (ClassDecl.mapMethods fun m =>
        if Builtin.isConstructor m.name then { m with name := spelling } else m) }

/-- A project whose constructors are renamed by another spelling is respelled. -/
lemma ProjectFacts.respelled_withConstructor (files : ProjectFacts) {spelling : String}
    (h : Builtin.isConstructor spelling = true) :
    files.Respelled (files.withConstructor spelling) := by
  rw [Respelled, withConstructor, Dict.entries_map, List.forall₂_map_right_iff, List.forall₂_same]
  refine fun e _ => ⟨rfl, rfl, ?_⟩
  rw [List.forall₂_map_right_iff, List.forall₂_same]
  refine fun k _ => ⟨rfl, ?_⟩
  rw [ClassDecl.mapMethods, List.forall₂_map_right_iff, List.forall₂_same]
  intro m _
  split
  case isTrue hm => exact ⟨rfl, .inr ⟨hm, h⟩⟩
  case isFalse => exact ⟨rfl, .inl rfl⟩

/-- The identifiers of classes and methods are replaced one by one, and those that differ still
do. -/
structure ProjectFacts.Renaming (g : String → String) (files files' : ProjectFacts) : Prop where
  ids : files'.classes.map ClassDecl.ids = files.classes.map fun k => k.ids.map g
  apart : ∀ a ∈ files.classes.flatMap ClassDecl.ids, ∀ b ∈ files.classes.flatMap ClassDecl.ids,
    g a = g b → a = b

/-- The same stamped routine, except for its identifier and the spelling of a constructor. -/
def Routine.Renamed (g : String → String) (r r' : Routine) : Prop :=
  r' = { r with id := g r.id, name := r'.name } ∧
    Builtin.isConstructor r'.name = Builtin.isConstructor r.name

/-- The same stamped class, except for its methods. -/
def ClassDecl.Renamed (g : String → String) (k k' : ClassDecl) : Prop :=
  k' = { k with methods := k'.methods } ∧ g k.id = k.id ∧
    List.Forall₂ (Routine.Renamed g) k.methods k'.methods

section Stamps

variable {g : String → String}

/-- A respelled routine is, when stamped, the stamped routine under another identifier. -/
lemma Routine.Respelled.renamed_stamp {r r' : Routine} (h : r.Respelled r') {path : String}
    {f : FileFacts} (hid : g (r.stamp path f).id = (r'.stamp path f).id) :
    (r.stamp path f).Renamed g (r'.stamp path f) := by
  obtain ⟨hrest, hname⟩ := h
  refine ⟨?_, ?_⟩
  · rw [hid]
    conv_lhs => rw [hrest]
    rw [hrest]
    rfl
  · show Builtin.isConstructor r'.name = Builtin.isConstructor r.name
    rcases hname with hsame | ⟨hcon, hcon'⟩
    · rw [hsame]
    · rw [hcon, hcon']

/-- What is stamped alike differs by its identifiers. -/
lemma ClassDecl.Respelled.renamed_stamp {k k' : ClassDecl} (h : k.Respelled k') {path : String}
    {f : FileFacts} (hids : (k'.stamp path f).ids = (k.stamp path f).ids.map g) :
    (k.stamp path f).Renamed g (k'.stamp path f) := by
  obtain ⟨hrest, hmethods⟩ := h
  obtain ⟨hid, hmethodIds⟩ := List.cons.inj hids
  have hclassId : (k'.stamp path f).id = (k.stamp path f).id := by rw [hrest]; rfl
  have hpairs : List.Forall₂ (fun m m' => g (m.stamp path f).id = (m'.stamp path f).id)
      k.methods k'.methods := by
    have hlists := hmethodIds.symm
    simp only [stamp, List.map_map, ← List.forall₂_eq_eq_eq, List.forall₂_map_left_iff,
      List.forall₂_map_right_iff] at hlists
    exact hlists
  refine ⟨?_, hid.symm.trans hclassId, ?_⟩
  · conv_lhs => rw [hrest]
    rfl
  · simp only [stamp, List.forall₂_map_left_iff, List.forall₂_map_right_iff]
    exact hmethods.mp (fun _ _ hm => hm.renamed_stamp) hpairs

/-- The classes of a project in other spellings differ by the identifiers of their methods. -/
lemma ProjectFacts.Respelled.forall₂_renamed {files files' : ProjectFacts}
    (h : files.Respelled files') (hg : Renaming g files.stamp files'.stamp) :
    List.Forall₂ (ClassDecl.Renamed g) files.stamp.classes files'.stamp.classes := by
  have hpairs : List.Forall₂ (fun k k' => ∃ path f l l', ClassDecl.Respelled l l' ∧
      k = l.stamp path f ∧ k' = l'.stamp path f) files.stamp.classes files'.stamp.classes := by
    rw [classes_stamp, classes_stamp]
    refine List.rel_flatMap h ?_
    rintro ⟨path, f⟩ ⟨path', f'⟩ ⟨rfl, hrest, hks⟩
    simp only [FileFacts.stamp, List.forall₂_map_left_iff, List.forall₂_map_right_iff]
    refine hks.imp fun k k' hk => ⟨Text.slashed path, f, k, k', hk, rfl, ?_⟩
    -- of its file, stamping reads the imports and the namespaces only
    dsimp only at hrest
    rw [hrest]
    rfl
  have hids : List.Forall₂ (fun k k' => k'.ids = k.ids.map g) files.stamp.classes
      files'.stamp.classes := by
    have hlists : List.Forall₂ Eq (files'.stamp.classes.map ClassDecl.ids)
        (files.stamp.classes.map fun k => k.ids.map g) := by
      rw [List.forall₂_eq_eq_eq]
      exact hg.ids
    rw [List.forall₂_map_left_iff, List.forall₂_map_right_iff] at hlists
    exact hlists.flip
  refine hpairs.mp ?_ hids
  rintro _ _ ⟨path, f, l, l', hl, rfl, rfl⟩ hid
  exact hl.renamed_stamp hid

end Stamps

/-! ## Look-ups in other spellings -/

section Lookups

open Scan

variable {g : String → String}

/-- What resolution sees of a declaration under another identifier. -/
def Scan.Target.rename (g : String → String) (t : Target) : Target := { t with id := g t.id }

/-- The targets of a call of the constructor in a class. -/
lemma ClassDecl.Renamed.targetsIn_eq {k k' : ClassDecl} (h : k.Renamed g k') {c : Call}
    (hc : c.kind = .construct) : targetsIn c k' = (targetsIn c k).map (Target.rename g) := by
  obtain ⟨hrest, hid, hmethods⟩ := h
  have hcon (r : Routine) : decide (Text.foldCase r.name = "__construct") =
      Builtin.isConstructor r.name := (Builtin.isConstructor_eq_decide r.name).symm
  have hfilter :
      (k'.methods.filter fun m => Text.foldCase m.name = "__construct").map Target.ofRoutine =
      ((k.methods.filter fun m => Text.foldCase m.name = "__construct").map Target.ofRoutine).map
        (Target.rename g) := by
    rw [List.map_map]
    refine (map_filter_eq_of_forall₂ hmethods ?_ ?_).symm
    · intro m m' hm
      rw [hcon, hcon, hm.2]
    · intro m m' hm
      rw [hm.1]
      rfl
  have hnil : (k'.methods.filter fun m => Text.foldCase m.name = "__construct") = [] ↔
      (k.methods.filter fun m => Text.foldCase m.name = "__construct") = [] := by
    have hlength := congrArg List.length hfilter
    simp only [List.length_map] at hlength
    rw [← List.length_eq_zero_iff, hlength, List.length_eq_zero_iff]
  have hclass : Target.ofClass k' = (Target.ofClass k).rename g := by
    rw [hrest, Target.rename]
    simp only [Target.ofClass, hid]
  simp only [targetsIn, hc, if_true, hnil]
  split
  · rw [hclass]
    rfl
  · exact hfilter

/-- The targets in the class of an identifier. -/
def ProjectFacts.targetsAt (files : ProjectFacts) (c : Call) (id : String) : List Target :=
  (files.classes.reverse.find? fun k => k.id = id).toList.flatMap (targetsIn c)

/-- The methods and classes that a call may mean, as targets. -/
lemma Index.map_target_classCandidates_eq (files : ProjectFacts) (c : Call) :
    ((ofProject files).classCandidates c).map Candidate.target =
      ((ofProject files).classesFor c).flatMap (files.targetsAt c) := by
  rw [classCandidates, List.filterMap_eq_flatMap_toList, List.flatMap_assoc, List.map_flatMap]
  refine congrArg (List.flatMap · _) ?_
  funext id
  rw [class?_ofProject, ProjectFacts.targetsAt]
  cases files.classes.reverse.find? fun k => k.id = id with
  | none => rfl
  | some k => simp [ClassDecl.map_target_candidates]

/-- A target in a class has the identifier of a class or of a member. -/
lemma ProjectFacts.mem_ids_of_mem_targetsAt {files : ProjectFacts} {c : Call} {id : String}
    {t : Target} (ht : t ∈ files.targetsAt c id) : t.id ∈ files.classes.flatMap ClassDecl.ids := by
  obtain ⟨k, hk, ht⟩ := List.mem_flatMap.1 ht
  have hfound := List.mem_of_find?_eq_some (Option.mem_toList.1 hk)
  have hid : t.id ∈ k.ids := (map_id_targetsIn_sublist c k).subset (List.mem_map_of_mem ht)
  exact List.mem_flatMap.2 ⟨k, by simpa using hfound, hid⟩

variable {files files' : ProjectFacts}
  (h : List.Forall₂ (ClassDecl.Renamed g) files.classes files'.classes)

include h

/-- In other spellings, a call of the constructor is looked for in the same classes. -/
lemma Index.classesFor_eq_of_renamed {c : Call} (hc : c.kind = .construct) :
    (ofProject files').classesFor c = (ofProject files).classesFor c := by
  have hid (k k' : ClassDecl) (hk : k.Renamed g k') : k.id = k'.id := by rw [hk.1]
  have hnamed : files'.named c.className = files.named c.className := by
    refine congrArg List.eraseDups (map_filter_eq_of_forall₂ h ?_ hid).symm
    intro k k' hk
    rw [hk.1]
  have hfullname : (ofProject files').classesWithFullname c.fullname =
      (ofProject files).classesWithFullname c.fullname := by
    simp only [classesWithFullname_ofProject, eraseDups_flatMap]
    refine congrArg List.eraseDups (map_filter_eq_of_forall₂ h ?_ hid).symm
    intro k k' hk
    refine any_eq_of_forall₂ hk.2.2 fun m m' hm => ?_
    rw [hm.1]
  rw [classesFor_of_construct files' hc, classesFor_of_construct files hc, hnamed, hfullname]

/-- In other spellings, a class has the same targets under other identifiers. -/
lemma ProjectFacts.targetsAt_eq_of_renamed {c : Call} (hc : c.kind = .construct) (id : String) :
    files'.targetsAt c id = (files.targetsAt c id).map (Target.rename g) := by
  have hgen : ∀ l l' : List ClassDecl, List.Forall₂ (ClassDecl.Renamed g) l l' →
      (l'.find? fun k => k.id = id).toList.flatMap (targetsIn c) =
        ((l.find? fun k => k.id = id).toList.flatMap (targetsIn c)).map (Target.rename g) := by
    intro l l' hl
    induction hl with
    | nil => rfl
    | @cons k k' l l' hk _ ih =>
      have hid : k'.id = k.id := by rw [hk.1]
      rw [List.find?_cons, List.find?_cons, hid]
      split
      · simp [hk.targetsIn_eq hc]
      · exact ih
  exact hgen _ _ (List.rel_reverse h)

end Lookups

/-! ## Outcomes in other spellings -/

/-- An outcome with other identifiers. -/
def Outcome.rename (g : String → String) : Outcome → Outcome
  | .resolved m => .resolved (.ofList (m.entries.map fun e => (g e.1, e.2)))
  | .ambiguous n => .ambiguous n
  | .unresolved => .unresolved
  | .builtin => .builtin
  | .dynamic => .dynamic

namespace Scan

variable {g : String → String} {ts : List Target}

/-- Hints do not look at identifiers. -/
lemma hintTests_rename {c : Call} {test : Target → Bool} (htest : test ∈ hintTests c) (t : Target) :
    test (t.rename g) = test t := by
  rcases List.mem_append.1 htest with htest | htest
  · obtain ⟨hint, -, rfl⟩ := List.mem_map.1 htest
    rfl
  · obtain ⟨path, -, rfl⟩ := List.mem_map.1 htest
    rfl

variable (hg : ∀ t ∈ ts, ∀ u ∈ ts, g t.id = g u.id → t.id = u.id)

include hg

/-- What hints keep follows a renaming that keeps identifiers apart. -/
lemma keepHinted_map_rename (c : Call) :
    keepHinted c (ts.map (Target.rename g)) = (keepHinted c ts).map (Target.rename g) := by
  have htests : ((hintTests c).flatMap fun test => (ts.map (Target.rename g)).filter test) =
      ((hintTests c).flatMap fun test => ts.filter test).map (Target.rename g) := by
    rw [List.map_flatMap]
    refine List.flatMap_congr fun test htest => ?_
    rw [List.filter_map]
    exact congrArg _ (List.filter_congr fun t _ => hintTests_rename htest t)
  rw [keepHinted_eq_eraseDupsBy, keepHinted_eq_eraseDupsBy, htests, eraseDupsBy_map]
  refine congrArg _ (eraseDupsBy_congr fun t ht u hu => ?_)
  exact decide_eq_decide.2 ⟨hg t (mem_of_mem_hinted ht) u (mem_of_mem_hinted hu), congrArg g⟩

/-- Other identifiers do not change which targets are near. -/
lemma near_map_rename (o : ResolveOptions) (c : Call) :
    near o c (ts.map (Target.rename g)) = (near o c ts).map (Target.rename g) := by
  unfold near
  split
  · cases c.file with
    | none => rfl
    | some file => exact List.filter_map
  · split
    · exact keepHinted_map_rename hg c
    · rfl

/-- **Outcomes follow a renaming of identifiers** that keeps those of the targets apart. -/
theorem outcome_map_rename (o : ResolveOptions) (c : Call) :
    outcome o c (ts.map (Target.rename g)) = (outcome o c ts).rename g := by
  have hleft : (near o c (ts.map (Target.rename g))).filter (mayReach c) =
      ((near o c ts).filter (mayReach c)).map (Target.rename g) := by
    rw [near_map_rename hg, List.filter_map]
    rfl
  have hsub : ∀ t ∈ (near o c ts).filter (mayReach c), t ∈ ts :=
    fun t ht => mem_of_mem_near (List.mem_of_mem_filter ht)
  rw [outcome_eq, outcome_eq, hleft, near_map_rename hg, List.length_map]
  split
  · rfl
  · simp only [List.map_eq_nil_iff]
    split
    · rfl
    · rw [Outcome.rename, Dict.ofList_map_entries, List.map_map, List.map_map]
      · rfl
      · intro e he e' he'
        obtain ⟨t, ht, rfl⟩ := List.mem_map.1 he
        obtain ⟨u, hu, rfl⟩ := List.mem_map.1 he'
        exact hg t (hsub t ht) u (hsub u hu)

end Scan

namespace Index

/-- The outcome of a call of the constructor is that of the targets in the classes where it is
looked for: the spelling says only where. -/
lemma resolve_spelled (files : ProjectFacts) (o : ResolveOptions) {c : Call}
    (hc : c.kind = .construct) (owner joint spelling : String) :
    (ofProject files).resolve o (c.spelled owner joint spelling) =
      Scan.outcome o c
        (((ofProject files).classesFor (c.spelled owner joint spelling)).flatMap
          (files.targetsAt c)) := by
  have hkind : (c.spelled owner joint spelling).kind = .construct := hc
  have htargets : files.targetsAt (c.spelled owner joint spelling) = files.targetsAt c := by
    funext id
    refine congrArg (List.flatMap · _) ?_
    funext k
    simp only [Scan.targetsIn, hkind, hc, if_true]
  rw [resolve, candidates, hkind]
  simp only [CallKind.isClassBound, if_true]
  rw [Call.select_eq_outcome, map_target_classCandidates_eq, htargets]
  rfl

/-- Calls of the constructor that are looked for in the same classes have the same outcome, in
another spelling of the project under other identifiers. -/
lemma resolve_eq_rename {files files' : ProjectFacts} {g : String → String}
    (hfiles : files.Respelled files') (hg : ProjectFacts.Renaming g files.stamp files'.stamp)
    (o : ResolveOptions) {c : Call} (hc : c.kind = .construct)
    {owner joint spelling spelling' : String}
    (hsame : (ofProject files.stamp).classesFor (c.spelled owner joint spelling') =
      (ofProject files.stamp).classesFor (c.spelled owner joint spelling)) :
    (ofProject files'.stamp).resolve o (c.spelled owner joint spelling') =
      ((ofProject files.stamp).resolve o (c.spelled owner joint spelling)).rename g := by
  have hrenamed := hfiles.forall₂_renamed hg
  have hkind : (c.spelled owner joint spelling').kind = .construct := hc
  have hclasses : (ofProject files'.stamp).classesFor (c.spelled owner joint spelling') =
      (ofProject files.stamp).classesFor (c.spelled owner joint spelling) :=
    (classesFor_eq_of_renamed hrenamed hkind).trans hsame
  rw [resolve_spelled _ o hc, resolve_spelled _ o hc, hclasses, ← Scan.outcome_map_rename,
    List.map_flatMap]
  · refine congrArg (fun targets => Scan.outcome o c (List.flatMap targets _)) ?_
    funext id
    exact ProjectFacts.targetsAt_eq_of_renamed hrenamed hc id
  · intro t ht u hu
    obtain ⟨_, _, ht⟩ := List.mem_flatMap.1 ht
    obtain ⟨_, _, hu⟩ := List.mem_flatMap.1 hu
    exact hg.apart _ (ProjectFacts.mem_ids_of_mem_targetsAt ht) _
      (ProjectFacts.mem_ids_of_mem_targetsAt hu)

/-- The classes that a call of the constructor is looked for in, by its spelling. -/
lemma classesFor_spelled {trees : Dict Node} (hnames : ∀ root ∈ trees.values, root.DeclaresNames)
    {c : Call} (hc : c.kind = .construct) (owner : String) {joint spelling : String}
    (hj : joint ∈ joints) (hspelling : Builtin.isConstructor spelling = true) :
    (ofProject (ProjectFacts.ofTrees trees).stamp).classesFor (c.spelled owner joint spelling) =
      (ProjectFacts.ofTrees trees).stamp.searched c.className owner joint spelling := by
  have hkind : (c.spelled owner joint spelling).kind = .construct := hc
  have hfullname := ProjectFacts.classesWithFullname_spelled hnames owner hj hspelling
  rw [classesFor_of_construct _ hkind, show (c.spelled owner joint spelling).fullname =
    owner ++ joint ++ spelling from rfl, hfullname, ProjectFacts.searched]
  by_cases hcan : joint = "::" ∧ spelling = Builtin.constructor
  · rw [if_pos hcan]
    by_cases hnil : (ProjectFacts.ofTrees trees).stamp.constructed owner = []
    · rw [if_pos hnil, if_neg fun h => h.2.2 hnil]
      rfl
    · rw [if_neg hnil, if_pos ⟨hcan.1, hcan.2, hnil⟩]
  · rw [if_neg hcan, if_pos rfl, if_neg fun h => hcan ⟨h.1, h.2.1⟩]
    rfl

end Index

/-- With distinct identifiers, the look-ups of the owner's name find different classes just if some
of these classes have a constructor and some have none. -/
lemma ProjectFacts.splits_iff {files : ProjectFacts} (h : (files.classes.map ClassDecl.id).Nodup)
    (owner : String) : files.Splits (some owner) owner ↔
      (∃ k ∈ files.classes, k.name = owner ∧ k.hasConstructor = true) ∧
        ∃ k ∈ files.classes, k.name = owner ∧ k.hasConstructor = false := by
  have hdistinct (p : ClassDecl → Bool) : ((files.classes.filter p).map ClassDecl.id).eraseDups =
      (files.classes.filter p).map ClassDecl.id :=
    eraseDups_eq_self (h.sublist (List.filter_sublist.map _))
  have hnamed : files.named (some owner) =
      (files.classes.filter fun k => k.name = owner).map ClassDecl.id := by
    rw [named, hdistinct]
    simp only [Option.some.injEq, eq_comm]
  have hconstructed : files.constructed owner =
      ((files.classes.filter fun k => k.name = owner).filter ClassDecl.hasConstructor).map
        ClassDecl.id := by
    rw [constructed, hdistinct, List.filter_filter]
    simp only [Bool.and_comm]
  have hall : files.constructed owner = files.named (some owner) ↔
      ∀ k ∈ files.classes.filter fun k => k.name = owner, k.hasConstructor = true := by
    rw [hnamed, hconstructed, ← List.filter_eq_self]
    refine ⟨fun heq => ?_, fun heq => by rw [heq]⟩
    have hlength := congrArg List.length heq
    rw [List.length_map, List.length_map] at hlength
    exact List.filter_sublist.eq_of_length hlength
  rw [Splits, ne_eq, ne_eq, hall, hconstructed, List.map_eq_nil_iff, List.filter_eq_nil_iff]
  simp

/-- Two spellings lead to the same classes if both are or both are not that of full names, or if the
classes do not differ. -/
lemma ProjectFacts.searched_eq_searched {files : ProjectFacts} {className : Option String}
    {owner joint spelling spelling' : String}
    (h : joint = "::" → files.Splits className owner →
      (spelling = Builtin.constructor ↔ spelling' = Builtin.constructor)) :
    files.searched className owner joint spelling' =
      files.searched className owner joint spelling := by
  by_cases hdiff : joint = "::" ∧ files.Splits className owner
  · simp only [searched, h hdiff.1 hdiff.2]
  · have hnamed (spelling : String) :
        files.searched className owner joint spelling = files.named className := by
      unfold searched
      split
      case isTrue hfull => exact by_contra fun hne => hdiff ⟨hfull.1, hfull.2.2, hne⟩
      case isFalse => rfl
    rw [hnamed, hnamed]

/-- **When the spelling of the constructor matters.** Let the declarations in the syntax trees of a
project be named by names, as those of pages are. Every call of the constructor in the project names
it in some spelling, and its full name joins this spelling to an owner. Whatever the spelling, the
outcome is that of the constructors of certain classes, or of these classes where they have none: of
the owner's classes that have a constructor, if there are any and the call is spelled like full
names behind `::`, and of all classes of the class name otherwise. So unless these classes differ
and just one of two spellings is that of full names, both spellings have the same outcome with all
options, in the project and in any other spelling of its constructors, up to the identifiers of what
is spelled in another way. Where the owner is the class name and identifiers are distinct, the
classes differ just if some classes of that name have a constructor and some have none.

**Proof sketch.** A method has the full name of a call of the constructor only if it is a
constructor, as names have no colons, and full names of constructors have one spelling. In a class
the targets of the call are told by folded names. Narrowing does not look at identifiers but to drop
repetitions. -/
theorem resolve_respelled (trees : Dict Node) (hnames : ∀ root ∈ trees.values, root.DeclaresNames) :
    let files := ProjectFacts.ofTrees trees
    let i := Index.ofProject files.stamp
    (∀ c ∈ files.stamp.calls, c.kind = .construct → c.SpellsConstructor) ∧
    ∀ c : Call, c.kind = .construct → ∀ owner, ∀ joint ∈ joints,
      (∀ spelling, Builtin.isConstructor spelling = true → ∀ o,
        i.resolve o (c.spelled owner joint spelling) = Scan.outcome o c
          ((files.stamp.searched c.className owner joint spelling).flatMap
            (files.stamp.targetsAt c))) ∧
      (∀ files' g, files.Respelled files' → ProjectFacts.Renaming g files.stamp files'.stamp →
        ∀ spelling spelling', Builtin.isConstructor spelling = true →
          Builtin.isConstructor spelling' = true →
          (joint = "::" → files.stamp.Splits c.className owner →
            (spelling = Builtin.constructor ↔ spelling' = Builtin.constructor)) →
          ∀ o, (Index.ofProject files'.stamp).resolve o (c.spelled owner joint spelling') =
            (i.resolve o (c.spelled owner joint spelling)).rename g) ∧
      ((files.stamp.classes.map ClassDecl.id).Nodup → (files.stamp.Splits (some owner) owner ↔
        (∃ k ∈ files.stamp.classes, k.name = owner ∧ k.hasConstructor = true) ∧
          ∃ k ∈ files.stamp.classes, k.name = owner ∧ k.hasConstructor = false)) := by
  intro files i
  refine ⟨fun c hmem hc => ProjectFacts.spellsConstructor_of_mem_calls trees hmem hc, ?_⟩
  intro c hc owner joint hjoint
  refine ⟨fun spelling hspelling o => ?_, ?_, fun hnodup => ProjectFacts.splits_iff hnodup owner⟩
  · rw [Index.resolve_spelled _ o hc, Index.classesFor_spelled hnames hc owner hjoint hspelling]
  · intro files' g hfiles hg spelling spelling' hspelling hspelling' hsplits o
    refine Index.resolve_eq_rename hfiles hg o hc ?_
    rw [Index.classesFor_spelled hnames hc owner hjoint hspelling,
      Index.classesFor_spelled hnames hc owner hjoint hspelling',
      ProjectFacts.searched_eq_searched hsplits]

/-- Two classes of one name, one of which has a constructor. -/
def ProjectFacts.doors : Dict Node :=
  pageTrees <| .ofList [("a.php", "<?php class Door \x7b function __construct() \x7b\x7d \x7d"),
    ("b.php", "<?php class Door \x7b\x7d")]

/-- The facts of these files. -/
def ProjectFacts.doorFiles : ProjectFacts := ofTrees doors

/-- A call of the constructor by a class that extends one of these classes. -/
def Call.upward (spelling : String) : Call :=
  { name := spelling, fullname := "Door::" ++ spelling, startLine := 1, endLine := 1,
    object := some "parent", className := some "Door", modifiers := [.static], kind := .construct }

/-- The identifier of the constructor in one spelling is replaced by that in another. -/
def Ident.doorRenaming (id : String) : String :=
  if id = routine "a.php" (some "Door") "__construct" 1 1 then
    routine "a.php" (some "Door") "__Construct" 1 1
  else id

open ProjectFacts in
/-- A call that does not spell the constructor like full names finds the class without a constructor
too, and it finds the same when the constructor is declared in another spelling. -/
theorem resolve_respelled_doors :
    (∀ root ∈ doors.values, root.DeclaresNames) ∧
    doorFiles.Respelled (doorFiles.withConstructor "__Construct") ∧
    Renaming Ident.doorRenaming doorFiles.stamp (doorFiles.withConstructor "__Construct").stamp ∧
    ((Index.ofProject doorFiles.stamp).resolve {} (.upward "__construct")).mayBeSource.map
      Dict.values =
      some ["a.php"] ∧
    ((Index.ofProject doorFiles.stamp).resolve {} (.upward "__CONSTRUCT")).mayBeSource.map
      Dict.values =
      some ["b.php", "a.php"] ∧
    doorFiles.stamp.Splits (some "Door") "Door" ∧
    (Index.ofProject (doorFiles.withConstructor "__Construct").stamp).resolve {}
      (.upward "__cONSTRUCT") =
      ((Index.ofProject doorFiles.stamp).resolve {} (.upward "__CONSTRUCT")).rename
        Ident.doorRenaming := by
  obtain ⟨hids, hapart, hfull, hother, hsplits⟩ :
      ((doorFiles.withConstructor "__Construct").stamp.classes.map ClassDecl.ids =
        doorFiles.stamp.classes.map fun k => k.ids.map Ident.doorRenaming) ∧
      (∀ a ∈ doorFiles.stamp.classes.flatMap ClassDecl.ids,
        ∀ b ∈ doorFiles.stamp.classes.flatMap ClassDecl.ids,
          Ident.doorRenaming a = Ident.doorRenaming b → a = b) ∧
      ((Index.ofProject doorFiles.stamp).resolve {} (.upward "__construct")).mayBeSource.map
        Dict.values =
        some ["a.php"] ∧
      ((Index.ofProject doorFiles.stamp).resolve {} (.upward "__CONSTRUCT")).mayBeSource.map
        Dict.values =
        some ["b.php", "a.php"] ∧
      doorFiles.stamp.Splits (some "Door") "Door" := by
    decide +kernel
  have hfiles : doorFiles.Respelled (doorFiles.withConstructor "__Construct") :=
    respelled_withConstructor doorFiles (by decide)
  have hrenaming : Renaming Ident.doorRenaming doorFiles.stamp
      (doorFiles.withConstructor "__Construct").stamp :=
    ⟨hids, hapart⟩
  have hupward : (Call.upward "__construct").kind = .construct := rfl
  have hnames : ∀ root ∈ doors.values, root.DeclaresNames := declaresNames_of_mem_pageTrees _
  have hmain := ((resolve_respelled doors hnames).2 _ hupward "Door" "::" (by decide)).2.1
    (doorFiles.withConstructor "__Construct") Ident.doorRenaming hfiles hrenaming "__CONSTRUCT"
    "__cONSTRUCT" (by decide) (by decide) (fun _ _ => by decide) {}
  exact ⟨hnames, hfiles, hrenaming, hfull, hother, hsplits, hmain⟩

end PhpCalls
