import PhpCalls.Proofs.Facts.Names
import PhpCalls.Proofs.Ident
import PhpCalls.Proofs.Resolve.Project

set_option autoImplicit false

/-!
# What identifiers tell apart

An identifier is made from a text in which file, owner, name and lines are joined by bars. Names
have none. So two routines share an identifier just if they have the file, the class, the name and
the lines in common; for classes, what stands before the name is a path and a namespace, which may
themselves hold bars. This holds for files with any syntax trees in which declarations are named by
names, as they are in the trees of pages. All is up to the digest of the texts, which is taken to
tell apart those that occur.

Nothing forbids two declarations of one name on the same lines. Of those the index keeps the last.

## Main definitions

* `Routine.Coincides`, `ClassDecl.Coincides`: two declarations that nothing in the text of their
  identifiers tells apart.
* `ProjectFacts.pageTrees`: the syntax trees of the pages of a project.

## Main results

* `id_eq_iff_coincides`: the declarations that share an identifier, and what is found under it.
-/

namespace PhpCalls

open Syntax

/-! ## Declarations -/

/-- The text of the identifier of a routine. -/
def Routine.keyText (r : Routine) : String :=
  Ident.key r.file r.className r.name r.startLine r.endLine

/-- The routines have file, class, name and lines in common. -/
def Routine.Coincides (r s : Routine) : Prop :=
  r.file = s.file ∧ r.className = s.className ∧ r.name = s.name ∧ r.startLine = s.startLine ∧
    r.endLine = s.endLine
  deriving Decidable

/-- The text of the identifier of a class. -/
def ClassDecl.keyText (k : ClassDecl) : String :=
  Ident.key k.file k.inNamespace k.name k.startLine k.endLine

/-- The path of the file of a class and its namespace, as one text. -/
def ClassDecl.home (k : ClassDecl) : String := k.file ++ "|" ++ k.inNamespace.getD ""

/-- The classes have name and lines in common, and file and namespace as far as one text tells. -/
def ClassDecl.Coincides (k l : ClassDecl) : Prop :=
  k.home = l.home ∧ k.name = l.name ∧ k.startLine = l.startLine ∧ k.endLine = l.endLine
  deriving Decidable

/-- A class name is not empty, so that a method is told apart from a function. -/
lemma Routine.IsNamed.getD_className_inj {r s : Routine} (hr : r.IsNamed) (hs : s.IsNamed) :
    r.className.getD "" = s.className.getD "" ↔ r.className = s.className := by
  have hne {r : Routine} (hr : r.IsNamed) {c : String} (hc : r.className = some c) : c ≠ "" := by
    rintro rfl
    exact (hr.className _ hc).ne_nil rfl
  cases hrclass : r.className with
  | none =>
    cases hsclass : s.className with
    | none => simp
    | some d => simpa using (hne hs hsclass).symm
  | some c =>
    cases hsclass : s.className with
    | none => simpa using hne hr hrclass
    | some d => simp

/-- The name of the class of a named routine has no bar. -/
lemma Routine.IsNamed.bar_notMem_className {r : Routine} (hr : r.IsNamed) :
    '|' ∉ (r.className.getD "").toList := by
  cases hclass : r.className with
  | none => simp
  | some c => exact (hr.className c hclass).bar_notMem

/-- Named routines have the same key exactly if they coincide. -/
lemma Routine.keyText_eq_iff {r s : Routine} (hr : r.IsNamed) (hs : s.IsNamed) :
    r.keyText = s.keyText ↔ r.Coincides s := by
  rw [keyText, keyText,
    Ident.key_inj hr.bar_notMem_className hs.bar_notMem_className hr.name.bar_notMem
    hs.name.bar_notMem, hr.getD_className_inj hs]
  rfl

/-- Classes with names have the same key exactly if they coincide. -/
lemma ClassDecl.keyText_eq_iff {k l : ClassDecl} (hk : Lexeme.IsName k.name.toList)
    (hl : Lexeme.IsName l.name.toList) : k.keyText = l.keyText ↔ k.Coincides l :=
  Ident.key_eq_key_iff hk.bar_notMem hl.bar_notMem

/-! ## Projects -/

namespace ProjectFacts

/-- The syntax trees of the pages of a project. -/
def pageTrees (sources : Dict String) : Dict Node := sources.map fun _ => Node.ofSource

/-- In the pages of a project, declarations are named by names. -/
lemma declaresNames_of_mem_pageTrees (sources : Dict String) :
    ∀ root ∈ (pageTrees sources).values, root.DeclaresNames := by
  intro root hroot
  simp only [pageTrees, Dict.values, Dict.entries_map, List.map_map, List.mem_map] at hroot
  obtain ⟨⟨path, source⟩, -, rfl⟩ := hroot
  exact Node.declaresNames_ofSource source

/-- The functions of a project are among its routines. -/
lemma functions_subset_routines (files : ProjectFacts) : files.functions ⊆ files.routines := by
  intro r hr
  obtain ⟨f, hf, hr⟩ := List.mem_flatMap.mp hr
  exact List.mem_flatMap.mpr ⟨f, hf, List.mem_append_left _ (List.mem_of_mem_filter hr)⟩

variable {trees : Dict Node}

/-- A stamped class is that of a file, with its path and its identifier. -/
lemma exists_of_mem_classes {k : ClassDecl} (hk : k ∈ (ofTrees trees).stamp.classes) :
    ∃ p root, (p, root) ∈ trees.entries ∧ ∃ l ∈ (FileFacts.ofTree root).classes,
      k = l.stamp (Text.slashed p) (.ofTree root) := by
  obtain ⟨f, hf, hk⟩ := List.mem_flatMap.mp hk
  obtain ⟨p, root, hp, rfl⟩ := exists_of_mem_values_stamp hf
  obtain ⟨l, hl, rfl⟩ := List.mem_map.mp hk
  exact ⟨p, root, hp, l, hl, rfl⟩

section Names

variable (hnames : ∀ root ∈ trees.values, root.DeclaresNames)

include hnames

/-- A stamped class is known by a name, and its identifier is made from its text. -/
lemma isName_and_id_of_mem_classes {k : ClassDecl} (hk : k ∈ (ofTrees trees).stamp.classes) :
    Lexeme.IsName k.name.toList ∧ k.id = "class_" ++ shortHash k.keyText := by
  obtain ⟨p, root, hp, l, hl, rfl⟩ := exists_of_mem_classes hk
  have hroot : root.DeclaresNames := hnames root (List.mem_map_of_mem hp)
  have hname : Lexeme.IsName l.name.toList := FileFacts.isName_of_mem_classes hroot hl
  exact ⟨hname, rfl⟩

/-- A stamped routine is known by a name, and its identifier is made from its text. -/
lemma isNamed_and_id_of_mem_routines {r : Routine} (hr : r ∈ (ofTrees trees).stamp.routines) :
    r.IsNamed ∧ r.id = "method_" ++ shortHash r.keyText := by
  obtain ⟨f, hf, hr⟩ := List.mem_flatMap.mp hr
  obtain ⟨p, root, hp, rfl⟩ := exists_of_mem_values_stamp hf
  rw [FileFacts.routines_stamp] at hr
  obtain ⟨s, hs, rfl⟩ := List.mem_map.mp hr
  have hroot : root.DeclaresNames := hnames root (List.mem_map_of_mem hp)
  obtain ⟨hname, hclass⟩ := FileFacts.isNamed_of_mem_routines hroot hs
  exact ⟨⟨hname, hclass⟩, rfl⟩

end Names

/-- The digest tells apart the texts of the identifiers that occur in the project. -/
structure DigestsApart (files : ProjectFacts) : Prop where
  routines : ∀ r ∈ files.routines, ∀ s ∈ files.routines,
    shortHash r.keyText = shortHash s.keyText → r.keyText = s.keyText
  classes : ∀ k ∈ files.classes, ∀ l ∈ files.classes,
    shortHash k.keyText = shortHash l.keyText → k.keyText = l.keyText

instance (files : ProjectFacts) : Decidable files.DigestsApart :=
  decidable_of_iff
    ((∀ r ∈ files.routines, ∀ s ∈ files.routines,
        shortHash r.keyText = shortHash s.keyText → r.keyText = s.keyText) ∧
      ∀ k ∈ files.classes, ∀ l ∈ files.classes,
        shortHash k.keyText = shortHash l.keyText → k.keyText = l.keyText)
    ⟨fun h => ⟨h.1, h.2⟩, fun h => ⟨h.routines, h.classes⟩⟩

/-- Routines share an identifier just if they coincide. -/
lemma routine_id_eq_iff (hnames : ∀ root ∈ trees.values, root.DeclaresNames)
    (h : (ofTrees trees).stamp.DigestsApart) {r s : Routine}
    (hr : r ∈ (ofTrees trees).stamp.routines) (hs : s ∈ (ofTrees trees).stamp.routines) :
    r.id = s.id ↔ r.Coincides s := by
  obtain ⟨hrname, hrid⟩ := isNamed_and_id_of_mem_routines hnames hr
  obtain ⟨hsname, hsid⟩ := isNamed_and_id_of_mem_routines hnames hs
  rw [hrid, hsid, String.append_right_inj, ← Routine.keyText_eq_iff hrname hsname]
  exact ⟨h.routines r hr s hs, congrArg shortHash⟩

/-- Classes share an identifier just if they coincide. -/
lemma class_id_eq_iff (hnames : ∀ root ∈ trees.values, root.DeclaresNames)
    (h : (ofTrees trees).stamp.DigestsApart) {k l : ClassDecl}
    (hk : k ∈ (ofTrees trees).stamp.classes) (hl : l ∈ (ofTrees trees).stamp.classes) :
    k.id = l.id ↔ k.Coincides l := by
  obtain ⟨hkname, hkid⟩ := isName_and_id_of_mem_classes hnames hk
  obtain ⟨hlname, hlid⟩ := isName_and_id_of_mem_classes hnames hl
  rw [hkid, hlid, String.append_right_inj, ← ClassDecl.keyText_eq_iff hkname hlname]
  exact ⟨h.classes k hk l hl, congrArg shortHash⟩

/-- Where paths have no bars, classes that coincide are in one file and one namespace. -/
lemma file_eq_of_coincides
    (hpaths : ∀ p ∈ trees.keys, ∀ q ∈ trees.keys, Text.slashed p = Text.slashed q → p = q)
    {k l : ClassDecl} (hk : k ∈ (ofTrees trees).stamp.classes)
    (hl : l ∈ (ofTrees trees).stamp.classes) (h : k.Coincides l) (hkbar : '|' ∉ k.file.toList)
    (hlbar : '|' ∉ l.file.toList) : k.file = l.file ∧ k.inNamespace = l.inNamespace := by
  obtain ⟨hhome, -, hline, -⟩ := h
  have hfile : k.file = l.file := Ident.eq_of_append_bar hkbar hlbar hhome
  refine ⟨hfile, ?_⟩
  -- one path is one file, and there the line tells the namespace
  obtain ⟨p, root, hp, k, hkfile, rfl⟩ := exists_of_mem_classes hk
  obtain ⟨q, root', hq, l, hlfile, rfl⟩ := exists_of_mem_classes hl
  obtain rfl : p = q := hpaths p (List.mem_map_of_mem hp) q (List.mem_map_of_mem hq) hfile
  rw [← Dict.get?_eq_some_iff] at hp hq
  obtain rfl : root = root' := Option.some.inj (hp.symm.trans hq)
  have hsame : k.inNamespace = l.inNamespace := FileFacts.inNamespace_eq hkfile hlfile hline
  exact hsame

end ProjectFacts

/-- **What identifiers tell apart.** Let the declarations in the syntax trees of a project be named
by names, as those of pages are; let its paths name one file each, as paths do that are written with
slashes; and let the digest tell apart the texts that occur. Two functions or methods have the same
identifier just if they have file, class, name and lines in common. Two classes have the same
identifier just if they have name, lines and the text of path and namespace in common; where paths
have no bars, this means the same file and namespace. Under the identifier of a function or a class
the index finds the last of those that it has all this in common with, hence itself if there is no
other.

**Proof sketch.** The name, the class name and the numbers in the text of an identifier have no
bars. So the text can be taken apart from the right. -/
theorem id_eq_iff_coincides (trees : Dict Node) (hnames : ∀ root ∈ trees.values, root.DeclaresNames)
    (hpaths : ∀ p ∈ trees.keys, ∀ q ∈ trees.keys, Text.slashed p = Text.slashed q → p = q)
    (hdigest : (ProjectFacts.ofTrees trees).stamp.DigestsApart) :
    let files := (ProjectFacts.ofTrees trees).stamp
    (∀ r ∈ files.routines, ∀ s ∈ files.routines, r.id = s.id ↔ r.Coincides s) ∧
    (∀ k ∈ files.classes, ∀ l ∈ files.classes, (k.id = l.id ↔ k.Coincides l) ∧
      (k.Coincides l → '|' ∉ k.file.toList → '|' ∉ l.file.toList →
        k.file = l.file ∧ k.inNamespace = l.inNamespace)) ∧
    (∀ f ∈ files.functions, ∃ g, (files.functions.filter fun g => g.Coincides f).getLast? = some g ∧
      (Index.ofProject files).function? f.id = some g.summary) ∧
    ∀ k ∈ files.classes, ∃ l, (files.classes.filter fun l => l.Coincides k).getLast? = some l ∧
      (Index.ofProject files).class? k.id = some l.summary := by
  intro files
  have hroutines (r : Routine) (hr : r ∈ files.routines) (s : Routine) (hs : s ∈ files.routines) :=
    ProjectFacts.routine_id_eq_iff hnames hdigest hr hs
  have hclasses (k : ClassDecl) (hk : k ∈ files.classes) (l : ClassDecl) (hl : l ∈ files.classes) :=
    ProjectFacts.class_id_eq_iff hnames hdigest hk hl
  have hfunctions (f : Routine) (hf : f ∈ files.functions) : f ∈ files.routines :=
    files.functions_subset_routines hf
  refine ⟨hroutines, fun k hk l hl => ⟨hclasses k hk l hl, ?_⟩, fun f hf => ?_, fun k hk => ?_⟩
  · exact ProjectFacts.file_eq_of_coincides hpaths hk hl
  · obtain ⟨g, hg, hlast⟩ := exists_getLast?_filter hf fun g hg =>
      hroutines g (hfunctions g hg) f (hfunctions f hf)
    exact ⟨g, hg, by rw [Index.function?_ofProject, hlast, Option.map_some]⟩
  · obtain ⟨l, hl, hlast⟩ := exists_getLast?_filter hk fun l hl => hclasses l hl k hk
    exact ⟨l, hl, by rw [Index.class?_ofProject, hlast, Option.map_some]⟩

/-- Pages with a function and a class that are declared twice on one line, and with a function of
the same name in another file. -/
def ProjectFacts.twice : Dict Node :=
  pageTrees <| .ofList
    [("a.php",
      "<?php if ($a) \x7b function f() \x7b\x7d \x7d else \x7b function f($x) \x7b\x7d \x7d\n" ++
        "if ($a) \x7b class K \x7b\x7d \x7d " ++
        "else \x7b class K \x7b function m() \x7b\x7d \x7d \x7d\n"),
     ("b.php", "<?php function f() \x7b\x7d\n")]

/-- The facts of these files. -/
def ProjectFacts.twiceFiles : ProjectFacts := (ofTrees twice).stamp

open ProjectFacts in
/-- Of the two functions on one line, and of the two classes, the second is found. -/
theorem id_eq_iff_coincides_twice :
    (∀ root ∈ twice.values, root.DeclaresNames) ∧
    (∀ p ∈ twice.keys, ∀ q ∈ twice.keys, Text.slashed p = Text.slashed q → p = q) ∧
    twiceFiles.DigestsApart ∧
    twiceFiles.functions.map (fun f => (f.file, f.parameters.length)) =
      [("a.php", 0), ("a.php", 1), ("b.php", 0)] ∧
    twiceFiles.classes.map (fun k => k.methods.length) = [0, 1] ∧
    (∀ f ∈ twiceFiles.functions, ∃ g,
      (twiceFiles.functions.filter fun g => g.Coincides f).getLast? = some g ∧
      (Index.ofProject twiceFiles).function? f.id = some g.summary) ∧
    (∀ k ∈ twiceFiles.classes, ∃ l,
      (twiceFiles.classes.filter fun l => l.Coincides k).getLast? = some l ∧
      (Index.ofProject twiceFiles).class? k.id = some l.summary) ∧
    (twiceFiles.functions.map fun f => (twiceFiles.functions.filter fun g =>
      g.Coincides f).getLast?.map fun g => g.parameters.length) = [some 1, some 1, some 0] ∧
    (twiceFiles.classes.map fun k => (twiceFiles.classes.filter fun l =>
      l.Coincides k).getLast?.map fun l => l.methods.length) = [some 1, some 1] := by
  -- one evaluation for all, as each one reads the pages again
  obtain ⟨hpaths, hdigest, hparameters, hmethods, hlast, hlast'⟩ :
      (∀ p ∈ twice.keys, ∀ q ∈ twice.keys, Text.slashed p = Text.slashed q → p = q) ∧
      twiceFiles.DigestsApart ∧
      twiceFiles.functions.map (fun f => (f.file, f.parameters.length)) =
        [("a.php", 0), ("a.php", 1), ("b.php", 0)] ∧
      twiceFiles.classes.map (fun k => k.methods.length) = [0, 1] ∧
      (twiceFiles.functions.map fun f => (twiceFiles.functions.filter fun g =>
        g.Coincides f).getLast?.map fun g => g.parameters.length) = [some 1, some 1, some 0] ∧
      (twiceFiles.classes.map fun k => (twiceFiles.classes.filter fun l =>
        l.Coincides k).getLast?.map fun l => l.methods.length) = [some 1, some 1] := by
    decide +kernel
  have hnames : ∀ root ∈ twice.values, root.DeclaresNames := declaresNames_of_mem_pageTrees _
  obtain ⟨-, -, hfound, hkept⟩ := id_eq_iff_coincides twice hnames hpaths hdigest
  exact ⟨hnames, hpaths, hdigest, hparameters, hmethods, hfound, hkept, hlast, hlast'⟩

end PhpCalls
