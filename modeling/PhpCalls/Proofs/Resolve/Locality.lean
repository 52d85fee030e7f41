import PhpCalls.Proofs.Facts.Native
import PhpCalls.Proofs.Resolve.Project
import PhpCalls.Proofs.Resolve.Scan

set_option autoImplicit false

/-!
# Native calls and the rest of the project

A native call of a method or constructor keeps the candidates of its own file only. The classes it
is looked for in are chosen before that, over the whole project: the classes that own a method of
the call's full name, and only if there are none the classes of its class name. So the rest of the
project can never add a candidate to such a call, but it can take all of them away. This happens
exactly when another file owns a method of the full name and the file of the call does not.

## Main definitions

* `FileFacts.Owns`: a class of a file has a method of a full name.
* `ProjectFacts.Masks`: a project owns a full name that one of its files does not own.
* `ProjectFacts.ofFile`: a project of one file.

## Main results

* `Scan.filter_classesFor`: which classes of its own file a call is looked for in.
* `calls_resolve_ofFile`: the calls of a file, resolved in the project and resolved alone.
-/

namespace PhpCalls

open Syntax Scan

/-- The class has a method of the full name. -/
def ClassDecl.Owns (k : ClassDecl) (fullname : String) : Prop :=
  ∃ m ∈ k.methods, m.fullname = fullname

/-- A class of the file has a method of the full name. -/
def FileFacts.Owns (f : FileFacts) (fullname : String) : Prop := ∃ k ∈ f.classes, k.Owns fullname

/-- Some file of the project owns the full name, but the file at `p` does not. -/
def ProjectFacts.Masks (files : ProjectFacts) (p fullname : String) : Prop :=
  (∃ q f, files.get? q = some f ∧ f.Owns fullname) ∧
    ∀ f, files.get? p = some f → ¬ f.Owns fullname

/-- The project of one file. -/
def ProjectFacts.ofFile (p : String) (f : FileFacts) : ProjectFacts := .ofList [(p, f)]

/-! ## Classes of one file -/

/-- A class and its methods lie in one file. -/
structure ClassDecl.LiesIn (path : String) (k : ClassDecl) : Prop where
  file : k.file = path
  methods : ∀ m ∈ k.methods, m.file = path

/-- A stamped class lies in the file it was stamped for. -/
lemma ClassDecl.liesIn_stamp (path : String) (facts : FileFacts) (k : ClassDecl) :
    (k.stamp path facts).LiesIn path := by
  refine ⟨rfl, fun m hm => ?_⟩
  obtain ⟨m₀, -, rfl⟩ := List.mem_map.1 hm
  rfl

/-- The targets in a class lie in its file. -/
lemma Scan.file_of_mem_targetsIn {path : String} {k : ClassDecl} (hk : k.LiesIn path) {c : Call}
    {t : Target} (ht : t ∈ targetsIn c k) : t.file = path := by
  simp only [targetsIn] at ht
  split at ht
  · split at ht
    · obtain rfl := List.mem_singleton.1 ht
      exact hk.file
    · obtain ⟨m, hm, rfl⟩ := List.mem_map.1 ht
      exact hk.methods m (List.mem_of_mem_filter hm)
  · obtain ⟨m, hm, rfl⟩ := List.mem_map.1 ht
    exact hk.methods m (List.mem_of_mem_filter hm)

/-- The targets in one file are the targets in the classes of that file. -/
lemma Scan.filter_flatMap_targetsIn (c : Call) (path : String) {ks : List ClassDecl}
    (hks : ∀ k ∈ ks, k.LiesIn k.file) :
    (ks.flatMap (targetsIn c)).filter (fun t => t.file = path) =
      (ks.filter fun k => k.file = path).flatMap (targetsIn c) := by
  induction ks with
  | nil => rfl
  | cons k ks ih =>
    rw [List.flatMap_cons, List.filter_append, ih fun k hk => hks k (List.mem_cons_of_mem _ hk)]
    have hfile : ∀ t ∈ targetsIn c k, t.file = k.file :=
      fun t ht => file_of_mem_targetsIn (hks k List.mem_cons_self) ht
    by_cases hk : k.file = path
    · rw [List.filter_cons_of_pos (by simpa using hk), List.flatMap_cons, List.filter_eq_self.2]
      intro t ht
      simpa [hk] using hfile t ht
    · rw [List.filter_cons_of_neg (by simpa using hk), List.filter_eq_nil_iff.2, List.nil_append]
      intro t ht
      simpa [hfile t ht] using hk

/-! ## The choice of classes -/

/-- The classes of the call's own file that it is looked for in: none, if the whole project owns the
full name but the file does not, and otherwise those that it is looked for in if the file is
alone. -/
theorem Scan.filter_classesFor {whole own : ProjectFacts} {path : String} {c : Call}
    (hown : own.classes = whole.classes.filter fun k => k.file = path)
    (hnamed : ∃ k ∈ own.classes, c.className = some k.name) :
    ((∃ k ∈ whole.classes, k.Owns c.fullname) → (¬ ∃ k ∈ own.classes, k.Owns c.fullname) →
      (classesFor whole c).filter (fun k => k.file = path) = []) ∧
    (((∃ k ∈ whole.classes, k.Owns c.fullname) → ∃ k ∈ own.classes, k.Owns c.fullname) →
      (classesFor whole c).filter (fun k => k.file = path) = classesFor own c) := by
  have hcomm : ∀ q : ClassDecl → Bool, (whole.classes.filter q).filter (fun k => k.file = path) =
      own.classes.filter q := by
    intro q
    rw [hown, List.filter_filter, List.filter_filter]
    exact List.filter_congr fun k _ => Bool.and_comm _ _
  have howner : ∀ files : ProjectFacts,
      (files.classes.filter fun k => k.methods.any fun m => m.fullname = c.fullname) ≠ [] ↔
        ∃ k ∈ files.classes, k.Owns c.fullname := by
    intro files
    simp [List.filter_eq_nil_iff, ClassDecl.Owns]
  have hname : ∀ files : ProjectFacts, (∃ k ∈ files.classes, c.className = some k.name) →
      (files.classes.filter fun k => c.className = some k.name) ≠ [] := by
    rintro files ⟨k, hk, hn⟩ hnil
    exact List.filter_eq_nil_iff.1 hnil k hk (by simpa using hn)
  have hup : ∀ {q : ClassDecl → Prop}, (∃ k ∈ own.classes, q k) → ∃ k ∈ whole.classes, q k := by
    rintro q ⟨k, hk, hq⟩
    rw [hown] at hk
    exact ⟨k, List.mem_of_mem_filter hk, hq⟩
  by_cases hw : ∃ k ∈ whole.classes, k.Owns c.fullname
  · -- the owners of the full name are chosen
    have hfor : classesFor whole c =
        whole.classes.filter fun k => k.methods.any fun m => m.fullname = c.fullname := by
      simp only [classesFor]
      rw [if_pos ((howner whole).2 hw)]
    rw [hfor, hcomm]
    refine ⟨fun _ ho => not_ne_iff.1 fun h => ho ((howner own).1 h), fun h => ?_⟩
    simp only [classesFor]
    rw [if_pos ((howner own).2 (h hw))]
  · -- there is no owner, and the classes of the name are chosen
    have ho : ¬ ∃ k ∈ own.classes, k.Owns c.fullname := fun h => hw (hup h)
    refine ⟨fun h => absurd h hw, fun _ => ?_⟩
    simp only [classesFor]
    rw [if_neg (fun h => hw ((howner whole).1 h)), if_pos (hname whole (hup hnamed)),
      if_neg (fun h => ho ((howner own).1 h)), if_pos (hname own hnamed), hcomm]

/-! ## Outcomes -/

/-- What is left of targets by where a native call stands. -/
lemma Scan.near_of_isNative (o : ResolveOptions) {c : Call} {path : String} (hn : c.isNative = true)
    (hfile : c.file = some path) (ts : List Target) :
    near o c ts = ts.filter fun t => t.file = path := by
  simp only [near, hn, hfile, if_true]

/-- If nothing is left of the targets, the call has no candidates. -/
lemma Scan.mayBeSource_outcome_of_near_nil {o : ResolveOptions} {c : Call} {ts : List Target}
    (h : near o c ts = []) : (outcome o c ts).mayBeSource = none := by
  simp [outcome, h, Outcome.mayBeSource]

/-- The outcome of a call depends on the targets that are left by where it stands. -/
lemma Scan.outcome_congr {o : ResolveOptions} {c : Call} {ts us : List Target}
    (h : near o c ts = near o c us) : outcome o c ts = outcome o c us := by
  simp only [outcome, h]

/-! ## Stamped projects -/

namespace ProjectFacts

variable {files : ProjectFacts} {p : String} {f : FileFacts}

/-- The classes of a stamped project lie in one file each, with their methods. -/
lemma liesIn_of_mem_classes_stamp {k : ClassDecl} (hk : k ∈ files.stamp.classes) :
    k.LiesIn k.file := by
  rw [classes_stamp] at hk
  obtain ⟨e, -, hk⟩ := List.mem_flatMap.1 hk
  obtain ⟨l, -, rfl⟩ := List.mem_map.1 hk
  exact l.liesIn_stamp _ e.2

/-- If a path names one file only, the classes with this path are those of the file. -/
lemma filter_classes_stamp (hf : files.get? p = some f)
    (hpath : ∀ q ∈ files.keys, Text.slashed q = Text.slashed p → q = p) :
    files.stamp.classes.filter (fun k => k.file = Text.slashed p) = (f.stamp p).classes := by
  have hall : ∀ e : String × FileFacts, ∀ k ∈ (e.2.stamp e.1).classes,
      k.file = Text.slashed e.1 := by
    intro e k hk
    obtain ⟨l, -, rfl⟩ := List.mem_map.1 hk
    rfl
  rw [classes_stamp, List.filter_flatMap, Dict.flatMap_entries_eq hf]
  · refine List.filter_eq_self.2 fun k hk => ?_
    simpa using hall (p, f) k hk
  · intro e he hne
    refine List.filter_eq_nil_iff.2 fun k hk => ?_
    rw [hall e k hk]
    simpa using fun h => hne (hpath e.1 (List.mem_map_of_mem he) h)

/-- The classes of a stamped project of one file are those of the file. -/
lemma classes_stamp_ofFile (p : String) (f : FileFacts) :
    (ofFile p f).stamp.classes = (f.stamp p).classes := by
  rw [classes_stamp]
  simp [ofFile, Dict.ofList, Dict.insert, Dict.empty, Dict.place]

/-- A project of one file has that file. -/
lemma get?_ofFile (p : String) (f : FileFacts) : (ofFile p f).get? p = some f := by
  simp [ofFile, Dict.get?_ofList]

/-- Stamping keeps the full names of methods. -/
lemma exists_owns_classes_stamp (f : FileFacts) (p fullname : String) :
    (∃ k ∈ (f.stamp p).classes, k.Owns fullname) ↔ f.Owns fullname := by
  simp [FileFacts.stamp, FileFacts.Owns, ClassDecl.Owns, ClassDecl.stamp, Routine.stamp]

/-- Stamping does not change which full names a project owns. -/
lemma exists_owns_stamp (files : ProjectFacts) (fullname : String) :
    (∃ k ∈ files.stamp.classes, k.Owns fullname) ↔
      ∃ q f, files.get? q = some f ∧ f.Owns fullname := by
  rw [classes_stamp]
  constructor
  · rintro ⟨k, hk, ho⟩
    obtain ⟨e, he, hk⟩ := List.mem_flatMap.1 hk
    exact ⟨e.1, e.2, Dict.get?_eq_some_iff.2 he,
      (exists_owns_classes_stamp e.2 e.1 _).1 ⟨k, hk, ho⟩⟩
  · rintro ⟨q, f, hf, ho⟩
    obtain ⟨k, hk, ho⟩ := (exists_owns_classes_stamp f q fullname).2 ho
    exact ⟨k, List.mem_flatMap.2 ⟨(q, f), Dict.get?_eq_some_iff.1 hf, hk⟩, ho⟩

end ProjectFacts

/-! ## The whole project and the file alone -/

/-- The candidates of a native call of a class of its file, over two projects of which the second is
the part of the first that lies in the file: none if the first masks the full name, and otherwise
the same.

**Proof sketch.** For both projects the outcome is that of the targets in the file of the call,
which are the targets in the classes of that file that the call is looked for in. -/
lemma Scan.mayBeSource_of_filter_classes {files own : ProjectFacts} (o : ResolveOptions)
    {path : String} {c : Call} (hids : (files.stamp.classes.map ClassDecl.id).Nodup)
    (hown : own.stamp.classes = files.stamp.classes.filter fun k => k.file = path)
    (hn : c.isNative = true) (hb : c.kind.isClassBound = true) (hfile : c.file = some path)
    (hnamed : ∃ k ∈ own.stamp.classes, c.className = some k.name) :
    ((∃ k ∈ files.stamp.classes, k.Owns c.fullname) →
      (¬ ∃ k ∈ own.stamp.classes, k.Owns c.fullname) →
      ((Index.ofProject files.stamp).resolve o c).mayBeSource = none) ∧
    (((∃ k ∈ files.stamp.classes, k.Owns c.fullname) →
        ∃ k ∈ own.stamp.classes, k.Owns c.fullname) →
      (Index.ofProject files.stamp).resolve o c = (Index.ofProject own.stamp).resolve o c) := by
  have hids' : (own.stamp.classes.map ClassDecl.id).Nodup := by
    rw [hown]
    exact hids.sublist (List.filter_sublist.map _)
  have hnear : ∀ g : ProjectFacts, near o c (classTargets g.stamp c) =
      ((classesFor g.stamp c).filter fun k => k.file = path).flatMap (targetsIn c) := by
    intro g
    rw [near_of_isNative o hn hfile, classTargets, filter_flatMap_targetsIn]
    exact fun k hk => ProjectFacts.liesIn_of_mem_classes_stamp (classesFor_subset _ _ hk)
  have hself :
      (classesFor own.stamp c).filter (fun k => k.file = path) = classesFor own.stamp c := by
    refine List.filter_eq_self.2 fun k hk => ?_
    have hk' := classesFor_subset _ _ hk
    rw [hown] at hk'
    exact (List.mem_filter.1 hk').2
  obtain ⟨hmasked, hopen⟩ := filter_classesFor hown hnamed
  rw [Index.resolve_eq_outcome_classTargets hids o hb,
    Index.resolve_eq_outcome_classTargets hids' o hb]
  refine ⟨fun hw ho => ?_, fun h => ?_⟩
  · apply mayBeSource_outcome_of_near_nil
    rw [hnear, hmasked hw ho, List.flatMap_nil]
  · apply outcome_congr
    rw [hnear, hnear, hopen h, hself]

/-- **Native calls of classes, in the project and in their file alone.** Let the files of a project
come from syntax trees, let its classes have distinct identifiers, and let the path `p` name one
file only, as paths do that are written with slashes. The calls of the file at `p` are the same, one
by one, whether the project is resolved or the file alone. A native call of a method or constructor
has the same outcome in both, unless the project masks its full name; then the project leaves it
without candidates.

**Proof sketch.** The class name of such a call is that of a class of the file
(`FileFacts.exists_class_of_isNative`), so that resolved alone it is looked for by full name or by
class name, and the third way never comes into play. -/
theorem calls_resolve_ofFile (trees : Dict Node) (o : ResolveOptions) {p : String} {root : Node}
    (hroot : trees.get? p = some root)
    (hpath : ∀ q ∈ trees.keys, Text.slashed q = Text.slashed p → q = p)
    (hids : ((ProjectFacts.ofTrees trees).stamp.classes.map ClassDecl.id).Nodup)
    {whole alone : FileFacts}
    (hwhole : ((ProjectFacts.ofTrees trees).resolve o).files.get? p = some whole)
    (halone : ((ProjectFacts.ofFile p (.ofTree root)).resolve o).files.get? p = some alone) :
    List.Forall₂ (fun c c' : Call => c.isNative = true → c.kind.isClassBound = true →
      (¬ (ProjectFacts.ofTrees trees).Masks p c.fullname → c = c') ∧
      ((ProjectFacts.ofTrees trees).Masks p c.fullname → c = { c' with mayBeSource := none }))
      whole.calls alone.calls := by
  set files := ProjectFacts.ofTrees trees with hfiles
  have hget : files.get? p = some (.ofTree root) := by
    rw [hfiles, ProjectFacts.ofTrees, Dict.get?_map, hroot]
    rfl
  have hkeys : ∀ q ∈ files.keys, Text.slashed q = Text.slashed p → q = p := by
    intro q hq
    refine hpath q ?_
    simpa [hfiles, ProjectFacts.ofTrees, Dict.keys] using hq
  obtain ⟨raw, hraw, hwcalls⟩ := ProjectFacts.calls_of_get?_resolve hwhole
  obtain rfl : FileFacts.ofTree root = raw := Option.some.inj (hget.symm.trans hraw)
  obtain ⟨raw', hraw', hacalls⟩ := ProjectFacts.calls_of_get?_resolve halone
  obtain rfl : FileFacts.ofTree root = raw' :=
    Option.some.inj ((ProjectFacts.get?_ofFile _ _).symm.trans hraw')
  have hown : (ProjectFacts.ofFile p (.ofTree root)).stamp.classes =
      files.stamp.classes.filter fun k => k.file = Text.slashed p := by
    rw [ProjectFacts.classes_stamp_ofFile, ProjectFacts.filter_classes_stamp hget hkeys]
  rw [hwcalls, hacalls, List.forall₂_map_left_iff, List.forall₂_map_right_iff, List.forall₂_same]
  intro c hc hn hb
  -- `c` is the call as it was read; both projects stamp it alike
  have hn₀ : c.isNative = true := by simpa [Call.settled] using hn
  have hb₀ : c.kind.isClassBound = true := by simpa [Call.settled] using hb
  obtain ⟨r, hr, hcr⟩ := List.mem_flatMap.1 hc
  obtain ⟨k, hk, hcn⟩ := FileFacts.exists_class_of_isNative hr hcr hn₀ hb₀
  have hnamed : ∃ l ∈ (ProjectFacts.ofFile p (.ofTree root)).stamp.classes,
      (c.stamp (Text.slashed p) (.ofTree root)).className = some l.name := by
    rw [ProjectFacts.classes_stamp_ofFile, Call.className_stamp, hcn]
    exact ⟨_, List.mem_map_of_mem hk, rfl⟩
  have hfile : (c.stamp (Text.slashed p) (.ofTree root)).file = some (Text.slashed p) :=
    Call.file_stamp_of_isNative (by simpa using hn₀)
  obtain ⟨hmasked, hopen⟩ := mayBeSource_of_filter_classes o hids hown (by simpa using hn₀)
    (by simpa using hb₀) hfile hnamed
  rw [ProjectFacts.exists_owns_stamp, ProjectFacts.classes_stamp_ofFile,
    ProjectFacts.exists_owns_classes_stamp] at hmasked hopen
  refine ⟨fun hm => ?_, fun hm => ?_⟩
  · have hsame := hopen fun hw => by
      by_contra ho
      exact hm ⟨hw, fun f hf => by rwa [← Option.some.inj (hget.symm.trans hf)]⟩
    simp only [Call.settled, hsame]
  · have hnone := hmasked hm.1 (hm.2 _ hget)
    simp only [Call.settled, hnone]

/-- A file that declares a class without a constructor and creates an object of it. -/
def ProjectFacts.bareTree : Node := Node.ofSource "<?php\nclass A {}\nnew A();\n"

/-- This file beside another one, whose class of the same name has a constructor. -/
def ProjectFacts.shadowed : Dict Node :=
  .ofList [("a.php", bareTree),
    ("b.php", Node.ofSource "<?php\nclass A { function __construct() {} }\n")]

open ProjectFacts in
/-- The object's class is found if its file is alone, and lost beside the other file. -/
theorem calls_resolve_ofFile_shadowed :
    ∃ whole alone : FileFacts,
      ((ofTrees shadowed).resolve {}).files.get? "a.php" = some whole ∧
      ((ofFile "a.php" (.ofTree bareTree)).resolve {}).files.get? "a.php" = some alone ∧
      List.Forall₂ (fun c c' : Call => c.isNative = true → c.kind.isClassBound = true →
        (¬ (ofTrees shadowed).Masks "a.php" c.fullname → c = c') ∧
        ((ofTrees shadowed).Masks "a.php" c.fullname → c = { c' with mayBeSource := none }))
        whole.calls alone.calls ∧
      whole.calls.map Call.mayBeSource = [none] ∧
      alone.calls.map Call.mayBeSource =
        [some (.ofList [(Ident.classDecl "a.php" none "A" 2 2, "a.php")])] := by
  have hw : (((ofTrees shadowed).resolve {}).files.get? "a.php").map
      (fun f => f.calls.map Call.mayBeSource) = some [none] := by decide +kernel
  have ha : (((ofFile "a.php" (.ofTree bareTree)).resolve {}).files.get? "a.php").map
      (fun f => f.calls.map Call.mayBeSource) =
      some [some (.ofList [(Ident.classDecl "a.php" none "A" 2 2, "a.php")])] := by decide +kernel
  obtain ⟨whole, hwhole, hw⟩ := Option.map_eq_some_iff.1 hw
  obtain ⟨alone, halone, ha⟩ := Option.map_eq_some_iff.1 ha
  exact ⟨whole, alone, hwhole, halone,
    calls_resolve_ofFile shadowed {} rfl (by decide +kernel) (by decide +kernel) hwhole halone,
    hw, ha⟩

end PhpCalls
