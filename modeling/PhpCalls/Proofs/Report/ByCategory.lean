import PhpCalls.Proofs.Record.Distinctness
import PhpCalls.Proofs.Record.Storage

set_option autoImplicit false

/-!
# What a report by category tells

A report by category shows the routines of a file without their calls, its classes with such
methods, and in a third document the calls of those routines that have some. The three fit together:
the classes tell how many of the routines are methods, and the identifiers tell whose calls are
whose. So the six documents tell all facts of a project but its bindings, and nothing else: a file
that has bindings alone is in none of them.

## Main definitions

* `FileFacts.hasRecords`, `FileFacts.withoutObjects`: what is shown of a file.
* `ProjectFacts.besideObjects`: the facts at a path besides bindings.
* `Disk.document?`: the document at a path.

## Main results

* `Routine.eq_of_calledEntries_eq`: routines are put together from their calls and the rest of them.
* `FileFacts.withoutObjects_eq_of_records_eq`: a file is put together from its records.
* `Category.documents_eq_iff`: in what two projects with the same documents agree.
* `Analysis.document?_of_yields_report`: the six documents stand at their paths.
* `reports_agree_iff`: two reports agree if the projects agree in all but bindings.
-/

namespace PhpCalls

/-! ## Calls and the rest of a routine -/

namespace Routine

variable {r s : Routine} {rs ss : List Routine}

/-- The entries for the calls of routines. -/
def calledEntries (rs : List Routine) : List Json :=
  (rs.filter fun r => !r.calls.isEmpty).map calledJson

/-- A routine is told by its calls and what it is without them. -/
lemma eq_of_withoutCalls_eq (h : r.withoutCalls = s.withoutCalls) (hcalls : r.calls = s.calls) :
    r = s := by
  cases r
  cases s
  simp_all [withoutCalls]

/-- A routine without its calls has its identifier. -/
lemma id_eq_of_withoutCalls_eq (h : r.withoutCalls = s.withoutCalls) : r.id = s.id := by
  have hid := congrArg Routine.id h
  exact hid

/-- A routine without calls has no entry. -/
lemma calledEntries_cons_of_eq_nil (h : r.calls = []) :
    calledEntries (r :: rs) = calledEntries rs := by
  simp [calledEntries, h]

/-- A routine with calls has the first entry. -/
lemma calledEntries_cons_of_ne_nil (h : r.calls ≠ []) :
    calledEntries (r :: rs) = r.calledJson :: calledEntries rs := by
  simp [calledEntries, h]

/-- An entry tells the identifier and the calls. -/
lemma of_calledJson_eq (h : r.calledJson = s.calledJson) : r.id = s.id ∧ r.calls = s.calls := by
  simp only [calledJson, Json.obj.injEq, List.cons.injEq, Prod.mk.injEq, true_and, Json.str.injEq,
    (Json.list_injective Call.toJson_injective).eq_iff, and_true] at h
  exact ⟨h.1, h.2.2⟩

/-- Among routines with other identifiers no entry is that of a given one. -/
lemma calledJson_notMem_calledEntries (h : r.id ∉ rs.map id) : r.calledJson ∉ calledEntries rs := by
  intro hmem
  obtain ⟨s, hs, heq⟩ := List.mem_map.1 hmem
  exact h (List.mem_map.2 ⟨s, (List.mem_filter.1 hs).1, (of_calledJson_eq heq).1⟩)

/-- Routines with different identifiers are put together from their calls and the rest of them.

**Proof sketch.** By induction on the two lists, which have one length. Of two routines in one place
both have calls or none has: otherwise the entry of one of them would stand among those of the later
routines, which have other identifiers. -/
theorem eq_of_calledEntries_eq (hids : (rs.map id).Nodup)
    (hrest : rs.map withoutCalls = ss.map withoutCalls)
    (hcalls : calledEntries rs = calledEntries ss) : rs = ss := by
  induction rs generalizing ss with
  | nil => exact (List.map_eq_nil_iff.1 hrest.symm).symm
  | cons r rs ih =>
    obtain _ | ⟨s, ss⟩ := ss
    · cases hrest
    obtain ⟨hfirst, hrest⟩ := List.cons.inj hrest
    obtain ⟨hr, hids⟩ := List.nodup_cons.1 hids
    have hid := id_eq_of_withoutCalls_eq hfirst
    have hsame : rs.map id = ss.map id := by
      simpa [Function.comp_def, withoutCalls] using congrArg (List.map id) hrest
    by_cases hrc : r.calls = [] <;> by_cases hsc : s.calls = []
    · rw [calledEntries_cons_of_eq_nil hrc, calledEntries_cons_of_eq_nil hsc] at hcalls
      rw [eq_of_withoutCalls_eq hfirst (hrc.trans hsc.symm), ih hids hrest hcalls]
    · rw [calledEntries_cons_of_eq_nil hrc, calledEntries_cons_of_ne_nil hsc] at hcalls
      have hnot : s.calledJson ∉ calledEntries rs := calledJson_notMem_calledEntries (hid ▸ hr)
      exact absurd (hcalls ▸ List.mem_cons_self) hnot
    · rw [calledEntries_cons_of_ne_nil hrc, calledEntries_cons_of_eq_nil hsc] at hcalls
      have hnot : r.calledJson ∉ calledEntries ss := calledJson_notMem_calledEntries (hsame ▸ hr)
      exact absurd (hcalls ▸ List.mem_cons_self) hnot
    · rw [calledEntries_cons_of_ne_nil hrc, calledEntries_cons_of_ne_nil hsc] at hcalls
      obtain ⟨hentry, hcalls⟩ := List.cons.inj hcalls
      rw [eq_of_withoutCalls_eq hfirst (of_calledJson_eq hentry).2, ih hids hrest hcalls]

end Routine

/-! ## Classes -/

namespace ClassDecl

variable {c k : ClassDecl} {cs ks : List ClassDecl}

/-- A class whose methods are without their calls. -/
def withoutCalls (c : ClassDecl) : ClassDecl :=
  { c with methods := c.methods.map Routine.withoutCalls }

/-- A class without its calls has its methods without their calls. -/
lemma methods_of_withoutCalls_eq (h : c.withoutCalls = k.withoutCalls) :
    c.methods.map Routine.withoutCalls = k.methods.map Routine.withoutCalls := by
  have hmethods := congrArg ClassDecl.methods h
  exact hmethods

/-- A class is told by its methods and what it is without calls. -/
lemma eq_of_withoutCalls_eq (h : c.withoutCalls = k.withoutCalls)
    (hmethods : c.methods = k.methods) : c = k := by
  cases c
  cases k
  simp_all [withoutCalls]

/-- Without their calls, the methods of classes are the methods of the classes without calls. -/
lemma flatMap_methods_withoutCalls (cs : List ClassDecl) :
    (cs.flatMap methods).map Routine.withoutCalls = (cs.map withoutCalls).flatMap methods := by
  rw [List.map_flatMap, List.flatMap_map]
  rfl

/-- Classes are put together from all their methods and the classes without calls. -/
theorem eq_of_flatMap_methods_eq (hrest : cs.map withoutCalls = ks.map withoutCalls)
    (hmethods : cs.flatMap methods = ks.flatMap methods) : cs = ks := by
  induction cs generalizing ks with
  | nil => exact (List.map_eq_nil_iff.1 hrest.symm).symm
  | cons c cs ih =>
    obtain _ | ⟨k, ks⟩ := ks
    · cases hrest
    obtain ⟨hfirst, hrest⟩ := List.cons.inj hrest
    have hlength : c.methods.length = k.methods.length := by
      simpa using congrArg List.length (methods_of_withoutCalls_eq hfirst)
    obtain ⟨hc, hcs⟩ := List.append_inj hmethods hlength
    rw [eq_of_withoutCalls_eq hfirst hc, ih hrest hcs]

end ClassDecl

/-! ## The records of a file -/

namespace FileFacts

variable {f g : FileFacts}

/-- Whether a file has facts besides bindings. -/
def hasRecords (f : FileFacts) : Bool :=
  !(f.methods.isEmpty && f.classes.isEmpty && f.imports.isEmpty && f.namespaces.isEmpty &&
    f.vars.isEmpty)

/-- The facts of a file besides bindings. -/
def withoutObjects (f : FileFacts) : FileFacts := { f with objects := [] }

/-- Bindings show in no record. -/
lemma records_withoutObjects (f : FileFacts) (c : Category) :
    c.records f.withoutObjects = c.records f := by
  cases c <;> rfl

/-- A file has no records exactly if it has none of any category. -/
lemma hasRecords_eq_false_iff : f.hasRecords = false ↔ ∀ c : Category, c.records f = [] := by
  constructor
  · intro h c
    simp only [hasRecords, Bool.not_eq_false', Bool.and_eq_true, List.isEmpty_iff] at h
    obtain ⟨⟨⟨⟨hmethods, hclasses⟩, himports⟩, hnamespaces⟩, hvars⟩ := h
    cases c <;> simp [Category.records, routines, hmethods, hclasses, himports, hnamespaces, hvars]
  · intro h
    have hmethods : f.methods = [] :=
      (List.append_eq_nil_iff.1 (List.map_eq_nil_iff.1 (h .method))).1
    have hclasses : f.classes = [] := List.map_eq_nil_iff.1 (h .class_)
    have himports : f.imports = [] := List.map_eq_nil_iff.1 (h .import_)
    have hnamespaces : f.namespaces = [] := List.map_eq_nil_iff.1 (h .namespace_)
    have hvars : f.vars = [] := List.map_eq_nil_iff.1 (h .variable_)
    simp [hasRecords, hmethods, hclasses, himports, hnamespaces, hvars]

/-- The routines of a file in which no two have one identifier are put together from two of its
documents. -/
lemma routines_eq_of_records_eq (hids : (f.routines.map Routine.id).Nodup)
    (h : ∀ c : Category, c.records f = c.records g) : f.routines = g.routines := by
  refine Routine.eq_of_calledEntries_eq hids ?_ (h .called)
  have hshown : (f.routines.map Routine.withoutCalls).map Routine.toJson =
      (g.routines.map Routine.withoutCalls).map Routine.toJson := by
    rw [List.map_map, List.map_map]
    exact h .method
  exact List.map_injective_iff.2 Routine.toJson_injective hshown

/-- Files with the same records have the same classes, up to calls. -/
lemma classes_withoutCalls_eq_of_records_eq (h : ∀ c : Category, c.records f = c.records g) :
    f.classes.map ClassDecl.withoutCalls = g.classes.map ClassDecl.withoutCalls := by
  have hshown : (f.classes.map ClassDecl.withoutCalls).map ClassDecl.toJson =
      (g.classes.map ClassDecl.withoutCalls).map ClassDecl.toJson := by
    rw [List.map_map, List.map_map]
    exact h .class_
  exact List.map_injective_iff.2 ClassDecl.toJson_injective hshown

/-- A file in which no two routines have one identifier is put together from its records, but for
its bindings.

**Proof sketch.** The routines are known from two of the documents. The classes without calls tell
how many of the routines are methods, which cuts the list in two, and its second part gives the
classes their methods. -/
theorem withoutObjects_eq_of_records_eq (hids : (f.routines.map Routine.id).Nodup)
    (h : ∀ c : Category, c.records f = c.records g) : f.withoutObjects = g.withoutObjects := by
  have hroutines := routines_eq_of_records_eq hids h
  have hrest := classes_withoutCalls_eq_of_records_eq h
  have hlength : (f.classes.flatMap ClassDecl.methods).length =
      (g.classes.flatMap ClassDecl.methods).length := by
    have hshown := (ClassDecl.flatMap_methods_withoutCalls f.classes).trans
      ((congrArg _ hrest).trans (ClassDecl.flatMap_methods_withoutCalls g.classes).symm)
    simpa using congrArg List.length hshown
  obtain ⟨hmethods, hofClasses⟩ := List.append_inj' hroutines hlength
  have hclasses : f.classes = g.classes := ClassDecl.eq_of_flatMap_methods_eq hrest hofClasses
  have himports : f.imports = g.imports :=
    List.map_injective_iff.2 Import.toJson_injective (h .import_)
  have hnamespaces : f.namespaces = g.namespaces :=
    List.map_injective_iff.2 NamespaceExtent.toJson_injective (h .namespace_)
  have hvars : f.vars = g.vars := List.map_injective_iff.2 Variable.toJson_injective (h .variable_)
  simp only [withoutObjects, hmethods, hclasses, himports, hnamespaces, hvars]

/-- Two files have the same records exactly if both have none, or they are the same but for their
bindings. -/
lemma records_eq_iff (hids : (f.routines.map Routine.id).Nodup) :
    (∀ c : Category, c.records f = c.records g) ↔
      (if f.hasRecords then some f.withoutObjects else none) =
        if g.hasRecords then some g.withoutObjects else none := by
  constructor
  · intro h
    have hsame : f.hasRecords = g.hasRecords := by
      rw [Bool.eq_iff_iff, ← not_iff_not, Bool.not_eq_true, Bool.not_eq_true,
        hasRecords_eq_false_iff, hasRecords_eq_false_iff]
      exact forall_congr' fun c => by rw [h c]
    rw [hsame, withoutObjects_eq_of_records_eq hids h]
  · intro h c
    cases hf : f.hasRecords <;> cases hg : g.hasRecords <;> simp only [hf, hg] at h
    · rw [hasRecords_eq_false_iff.1 hf, hasRecords_eq_false_iff.1 hg]
    · cases h
    · cases h
    · rw [← records_withoutObjects f, Option.some.inj h, records_withoutObjects]

end FileFacts

/-! ## Documents -/

namespace Dict

variable {α β : Type}

/-- The entries to which a function gives a value, with these values. -/
def filterMap (f : α → Option β) (d : Dict α) : Dict β where
  entries := d.entries.filterMap fun e => (f e.2).map fun v => (e.1, v)
  ascending := by
    refine List.pairwise_filterMap.2 (d.ascending.imp ?_)
    intro a b hab x hx y hy
    obtain ⟨v, -, rfl⟩ := Option.map_eq_some_iff.1 hx
    obtain ⟨w, -, rfl⟩ := Option.map_eq_some_iff.1 hy
    exact hab

/-- A dictionary whose values are mapped and filtered has under a key what is made of the value
there. -/
lemma get?_filterMap (f : α → Option β) (d : Dict α) (k : String) :
    (d.filterMap f).get? k = (d.get? k).bind f := by
  refine Option.ext fun v => ?_
  rw [get?_eq_some_iff, Option.bind_eq_some_iff, filterMap, List.mem_filterMap]
  constructor
  · rintro ⟨e, he, hv⟩
    obtain ⟨w, hw, heq⟩ := Option.map_eq_some_iff.1 hv
    obtain ⟨rfl, rfl⟩ := Prod.mk.inj heq
    exact ⟨e.2, get?_eq_some_iff.2 he, hw⟩
  · rintro ⟨a, ha, hv⟩
    exact ⟨(k, a), get?_eq_some_iff.1 ha, by simp [hv]⟩

end Dict

/-- Different dictionaries are written differently if their values are. -/
lemma Json.dict_injective {α : Type} {f : α → Json} (hf : Function.Injective f) :
    Function.Injective (dict f) := by
  intro m n h
  refine Dict.ext_entries (List.map_injective_iff.2 ?_ (obj.inj h))
  rintro ⟨k, a⟩ ⟨l, b⟩ hab
  obtain ⟨hk, ha⟩ := Prod.mk.inj hab
  exact Prod.ext hk (hf ha)

namespace ProjectFacts

/-- The facts at a path besides bindings, if there are any. -/
def besideObjects (files : ProjectFacts) (path : String) : Option FileFacts :=
  ((files.get? path).filter FileFacts.hasRecords).map FileFacts.withoutObjects

/-- The facts at a path, none if there is no file. -/
def factsAt (files : ProjectFacts) (path : String) : FileFacts := (files.get? path).getD {}

/-- There are facts besides bindings at a path exactly if the file there has records. -/
lemma besideObjects_eq (files : ProjectFacts) (path : String) :
    files.besideObjects path =
      if (files.factsAt path).hasRecords then some (files.factsAt path).withoutObjects
      else none := by
  cases h : files.get? path with
  | none => simp [besideObjects, factsAt, h, FileFacts.hasRecords]
  | some f => cases hf : f.hasRecords <;> simp [besideObjects, factsAt, h, hf]

/-- Where no file has two routines with one identifier, the facts at no path have. -/
lemma nodup_id_factsAt {files : ProjectFacts}
    (hids : ∀ f ∈ files.values, (f.routines.map Routine.id).Nodup) (path : String) :
    ((files.factsAt path).routines.map Routine.id).Nodup := by
  rw [factsAt]
  cases h : files.get? path with
  | none => exact List.nodup_nil
  | some f => exact hids f (List.mem_map.2 ⟨_, Dict.get?_eq_some_iff.1 h, rfl⟩)

end ProjectFacts

namespace Category

/-- The records of a category, if a file has any. -/
def shown (c : Category) (f : FileFacts) : Option (List Json) :=
  if (c.records f).isEmpty then none else some (c.records f)

/-- A category shows the same of two files exactly if they have the same records of it. -/
lemma shown_eq_iff {c : Category} {f g : FileFacts} :
    c.shown f = c.shown g ↔ c.records f = c.records g := by
  constructor
  · intro h
    by_cases hf : c.records f = [] <;> by_cases hg : c.records g = [] <;> simp_all [shown]
  · intro h
    rw [shown, shown, h]

/-- The document of a category is the dictionary of what it shows of each file. -/
lemma document_eq_dict (files : ProjectFacts) (c : Category) :
    c.document files = .dict .arr (files.filterMap c.shown) := by
  rw [document, Json.dict, Dict.filterMap, List.filterMap_map, List.map_filterMap]
  congr 2
  funext e
  by_cases h : c.records e.2 = [] <;> simp [shown, h]

/-- Under a path stands what the category shows of the facts there. -/
lemma get?_filterMap_shown (files : ProjectFacts) (c : Category) (path : String) :
    (files.filterMap c.shown).get? path = c.shown (files.factsAt path) := by
  rw [Dict.get?_filterMap, ProjectFacts.factsAt]
  cases files.get? path with
  | none => cases c <;> rfl
  | some f => rfl

/-- Two projects have the same document of a category if they have the same records of it at each
path. -/
lemma document_eq_iff {a b : ProjectFacts} {c : Category} :
    c.document a = c.document b ↔
      ∀ path, c.records (a.factsAt path) = c.records (b.factsAt path) := by
  have harr : Function.Injective Json.arr := fun _ _ => Json.arr.inj
  rw [document_eq_dict, document_eq_dict, (Json.dict_injective harr).eq_iff]
  constructor
  · intro h path
    rw [← shown_eq_iff, ← get?_filterMap_shown, h, get?_filterMap_shown]
  · intro h
    refine Dict.ext_get? fun path => ?_
    rw [get?_filterMap_shown, get?_filterMap_shown, shown_eq_iff.2 (h path)]

/-- Where no file has two routines with one identifier, two projects have the same documents exactly
if they agree in all but their bindings. -/
theorem documents_eq_iff {a b : ProjectFacts}
    (hids : ∀ f ∈ a.values, (f.routines.map Routine.id).Nodup) :
    (∀ c : Category, c.document a = c.document b) ↔
      ∀ path, a.besideObjects path = b.besideObjects path := by
  simp only [document_eq_iff]
  rw [forall_comm]
  refine forall_congr' fun path => ?_
  rw [ProjectFacts.besideObjects_eq, ProjectFacts.besideObjects_eq]
  exact FileFacts.records_eq_iff (ProjectFacts.nodup_id_factsAt hids path)

/-- The records of a category are a known value. -/
lemma known_records (f : FileFacts) (c : Category) : (Json.arr (c.records f)).Known := by
  refine .arr fun j hj => ?_
  cases c <;> obtain ⟨x, -, rfl⟩ := List.mem_map.1 hj
  case called => simp [Routine.calledJson, Json.known_list]
  all_goals simp

/-- The document of a category is a known value. -/
lemma known_document (files : ProjectFacts) (c : Category) : (c.document files).Known := by
  refine .obj fun m hm => ?_
  obtain ⟨⟨path, rs⟩, hrs, hsome⟩ := List.mem_filterMap.1 hm
  obtain ⟨e, -, heq⟩ := List.mem_map.1 hrs
  obtain ⟨rfl, rfl⟩ := Prod.mk.inj heq
  obtain ⟨-, hm⟩ := Option.ite_none_left_eq_some.1 hsome
  cases hm
  exact known_records e.2 c

/-- What the name of the document ends with. -/
def ending (c : Category) : String := "." ++ c.spelling ++ ".json"

/-- Where the document of a category is written. -/
def path (stem : String) (c : Category) : String := stem ++ c.ending

/-- A report in several files has one document for each category. -/
lemma documents_eq_map (a : Analysis) (stem : String) :
    a.documents stem true = all.map fun c => (c.path stem, c.document a.files) := by
  simp [Analysis.documents, path, ending, String.append_assoc]

/-- Every category is reported. -/
lemma mem_all (c : Category) : c ∈ all := by cases c <;> decide

/-- The documents lie at different positions, from every working directory. -/
lemma intended_path_inj {d : Disk} {stem : String} {c k : Category}
    (h : d.intended (c.path stem) = d.intended (k.path stem)) : c = k := by
  obtain ⟨base, name, hposition⟩ := d.exists_intended_append stem
  have hat (c : Category) : d.intended (c.path stem) = base ++ [name ++ c.ending] :=
    hposition c.ending (by cases c <;> decide) (by cases c <;> decide)
  rw [hat, hat] at h
  have hlast := List.singleton_inj.1 (List.append_inj_right' h rfl)
  have hending : c.ending = k.ending := by simpa using hlast
  revert hending
  cases c <;> cases k <;> decide

end Category

/-! ## Reports -/

/-- The document at a path. -/
def Disk.document? (d : Disk) (path : String) : Option Json :=
  (d.readText path).toOption.bind Json.parse

namespace Analysis

variable {d d' : Disk} {pretty : Bool}

/-- Writing a document keeps all files at other positions. -/
lemma find_of_yields_writeDocument_of_ne {path other : String} {document : Json} {b : ByteArray}
    (h : (writeDocument pretty path document).Yields d () d')
    (hne : ∀ d : Disk, d.intended other ≠ d.intended path) (hfind : d.find other = .ok (.file b)) :
    d'.find other = .ok (.file b) := by
  obtain ⟨d₁, hfind₁, hwrite⟩ : ∃ d₁, d₁.find other = .ok (.file b) ∧
      (Job.writeText path (document.write pretty)).Yields d₁ () d' := by
    rw [writeDocument] at h
    split at h
    · obtain ⟨⟨⟩, d₁, hmake, hwrite⟩ := Job.yields_bind_iff.1 h
      exact ⟨d₁, Disk.find_of_makeDirs (Job.yields_change_iff.1 hmake) hfind, hwrite⟩
    · exact ⟨d, hfind, h⟩
  exact Disk.find_of_write_of_ne (Cache.yields_writeText_iff.1 hwrite) (hne d₁) hfind₁

/-- Documents that are written to different positions, one after the other, all stand there in the
end.

**Proof sketch.** By induction on the documents: the first one is written, and the others are
written to other positions. -/
theorem find_of_yields_mapM_writeDocument {documents : List (String × Json)} {paths : List String}
    (hapart : documents.Pairwise fun x y => ∀ d : Disk, d.intended x.1 ≠ d.intended y.1)
    (h : (documents.mapM fun (path, document) => do
      writeDocument pretty path document
      return path).Yields d paths d') :
    paths = documents.map Prod.fst ∧
      (∀ x ∈ documents, d'.find x.1 = .ok (.file (Text.toBytes (x.2.write pretty)))) ∧
      ∀ other b, (∀ x ∈ documents, ∀ d : Disk, d.intended other ≠ d.intended x.1) →
        d.find other = .ok (.file b) → d'.find other = .ok (.file b) := by
  induction documents generalizing d paths with
  | nil =>
    obtain ⟨rfl, rfl⟩ := Job.yields_pure_iff.1 h
    exact ⟨rfl, fun x hx => (by cases hx), fun other b _ hfind => hfind⟩
  | cons x documents ih =>
    obtain ⟨hfirst, hrest⟩ := List.pairwise_cons.1 hapart
    rw [List.mapM_cons] at h
    obtain ⟨first, d₁, hone, h⟩ := Job.yields_bind_iff.1 h
    obtain ⟨⟨⟩, d₂, hwrite, hpure⟩ := Job.yields_bind_iff.1 hone
    obtain ⟨rfl, rfl⟩ := Job.yields_pure_iff.1 hpure
    obtain ⟨others, d₃, hothers, hpure⟩ := Job.yields_bind_iff.1 h
    obtain ⟨rfl, rfl⟩ := Job.yields_pure_iff.1 hpure
    obtain ⟨hpaths, hstand, hkept⟩ := ih hrest hothers
    refine ⟨by rw [hpaths, List.map_cons], fun y hy => ?_, fun other b hother hfind => ?_⟩
    · rcases List.mem_cons.1 hy with rfl | hy
      · exact hkept _ _ hfirst (find_of_yields_writeDocument hwrite)
      · exact hstand y hy
    · obtain ⟨hne, hother⟩ := List.forall_mem_cons.1 hother
      exact hkept _ _ hother (find_of_yields_writeDocument_of_ne hwrite hne hfind)

/-- After a report by category each document stands at its path. -/
theorem document?_of_yields_report {a : Analysis} {stem : String} {paths : List String}
    (h : (a.report stem ⟨true, pretty⟩).Yields d paths d') :
    paths = Category.all.map (Category.path stem) ∧
      ∀ c : Category, d'.document? (c.path stem) = some (c.document a.files) := by
  rw [report, Category.documents_eq_map] at h
  have hapart : (Category.all.map fun c => (c.path stem, c.document a.files)).Pairwise
      fun x y => ∀ d : Disk, d.intended x.1 ≠ d.intended y.1 := by
    have hnodup : Category.all.Nodup := by decide
    refine List.pairwise_map.2 (hnodup.imp fun hne d heq => hne (Category.intended_path_inj heq))
  obtain ⟨rfl, hstand, -⟩ := find_of_yields_mapM_writeDocument hapart h
  refine ⟨by rw [List.map_map]; rfl, fun c => ?_⟩
  have hfind := hstand _ (List.mem_map.2 ⟨c, c.mem_all, rfl⟩)
  rw [Disk.document?, Disk.readText_of_find hfind]
  exact Json.parse_write (c.known_document a.files) pretty

end Analysis

/-- **A report by category tells all but bindings.** Where no file of a project has two routines
with one identifier, its six documents are those of another project exactly if the two agree at
every path that has a method, a class, an import, a namespace or a variable, in everything but the
bindings. -/
theorem reports_agree_iff {a b : Analysis} {stem stem' : String} {pretty pretty' : Bool}
    {d d' e e' : Disk} {paths paths' : List String}
    (hids : ∀ f ∈ a.files.values, (f.routines.map Routine.id).Nodup)
    (ha : (a.report stem ⟨true, pretty⟩).Yields d paths d')
    (hb : (b.report stem' ⟨true, pretty'⟩).Yields e paths' e') :
    (∀ c : Category, d'.document? (c.path stem) = e'.document? (c.path stem')) ↔
      ∀ path, a.files.besideObjects path = b.files.besideObjects path := by
  rw [← Category.documents_eq_iff hids]
  obtain ⟨-, hdocuments⟩ := Analysis.document?_of_yields_report ha
  obtain ⟨-, hdocuments'⟩ := Analysis.document?_of_yields_report hb
  simp only [hdocuments, hdocuments', Option.some.injEq]

/-- A file with two functions and a method, of which the first and the last make a call, and a file
with bindings alone. -/
def ledgerFacts (objects : List Binding) : ProjectFacts :=
  Dict.ofList
    [("a.php",
      { methods :=
          [{ id := "1", name := "f", fullname := "f", startLine := 1, endLine := 2,
             kind := .general, calls := [quotedCall] },
           { id := "2", name := "g", fullname := "g", startLine := 3, endLine := 3,
             kind := .general }]
        classes :=
          [{ name := "A", startLine := 4, endLine := 5,
             methods :=
               [{ id := "3", name := "m", fullname := "A::m", startLine := 4, endLine := 5,
                  kind := .general, calls := [quotedCall] }] }]
        objects }),
     ("b.php", { objects })]

/-- An analysis of these files. -/
def ledger (objects : List Binding) : Analysis where
  root := "/shop"
  files := ledgerFacts objects
  failures := []
  tally := {}
  graph := {}
  discovered := 2
  fromCache := false

/-- With bindings or without, the documents are the same, also in another layout. -/
theorem reports_agree_iff_ledger : ∃ d' e' paths paths',
    (∀ f ∈ (ledger []).files.values, (f.routines.map Routine.id).Nodup) ∧
    ((ledger []).report "out/shop" ⟨true, true⟩).Yields ⟨.dir [], []⟩ paths d' ∧
    ((ledger [⟨"$x", "A", 1, 2⟩]).report "shop" ⟨true, false⟩).Yields ⟨.dir [], []⟩ paths' e' ∧
    ∀ c : Category, d'.document? (c.path "out/shop") = e'.document? (c.path "shop") := by
  obtain ⟨paths, hreport⟩ := Job.exists_yields_of_isOk
    (x := (ledger []).report "out/shop" ⟨true, true⟩) (d := ⟨.dir [], []⟩) (by decide +kernel)
  obtain ⟨paths', hreport'⟩ := Job.exists_yields_of_isOk
    (x := (ledger [⟨"$x", "A", 1, 2⟩]).report "shop" ⟨true, false⟩) (d := ⟨.dir [], []⟩)
      (by decide +kernel)
  have hids : ∀ f ∈ (ledger []).files.values, (f.routines.map Routine.id).Nodup := by decide
  refine ⟨_, _, _, _, hids, hreport, hreport',
    (reports_agree_iff hids hreport hreport').2 fun path => ?_⟩
  by_cases ha : path = "a.php"
  · subst ha
    rfl
  by_cases hb : path = "b.php"
  · subst hb
    rfl
  have hnone (objects : List Binding) : (ledgerFacts objects).get? path = none := by
    simp [ledgerFacts, Dict.get?_ofList_eq_none_iff, Ne.symm ha, Ne.symm hb]
  simp only [ProjectFacts.besideObjects, ledger, hnone]

end PhpCalls
