import Mathlib.Data.List.Flatten
import Mathlib.Data.List.Perm.Basic
import PhpCalls.Proofs.Resolve.Scan

set_option autoImplicit false

/-!
# The order of records

The index lists what it is given in the order in which it comes, hints keep the first of several
candidates, and too many candidates are counted. Nevertheless, where identifiers are distinct, a
call has the same outcome in whatever order the files, the declarations of a file and the methods of
a class come.

## Main definitions

* `Shuffled`: a list in another order, its elements changed in some way.
* `ClassDecl.Reordered`, `FileFacts.Reordered`: the same declarations in another order.
* `FileFacts.ids`: the identifiers of the declarations of a file.

## Main results

* `Scan.outcome_perm`: the outcome of a call does not depend on the order of the targets.
* `Scan.perm_classTargets`: reordered classes have the same targets, in another order.
* `resolve_ofFiles_reordered`: the outcome of a call does not depend on the order of the records.
-/

namespace PhpCalls

/-! ## Lists in another order -/

section Shuffled

variable {α β : Type} {r : α → α → Prop} {s : β → β → Prop} {l m : List α}

/-- The second list is the first one in another order, its elements replaced by related ones. -/
def Shuffled (r : α → α → Prop) : List α → List α → Prop :=
  Relation.Comp List.Perm (List.Forall₂ r)

/-- Elements that are not replaced are only put into another order. -/
lemma shuffled_eq_iff : Shuffled Eq l m ↔ l.Perm m := by
  simp [Shuffled, Relation.Comp, List.forall₂_eq_eq_eq]

/-- Lists may be shuffled one by one before they are appended. -/
lemma Shuffled.append {l' m' : List α} (h : Shuffled r l m) (h' : Shuffled r l' m') :
    Shuffled r (l ++ l') (m ++ m') := by
  obtain ⟨n, hp, hr⟩ := h
  obtain ⟨n', hp', hr'⟩ := h'
  exact ⟨n ++ n', hp.append hp', List.rel_append hr hr'⟩

/-- If related elements yield the same in another order, so do lists that are related one by one. -/
lemma shuffled_flatMap_of_forall₂ {f g : α → List β} (hfg : ∀ a b, r a b → Shuffled s (f a) (g b))
    (h : List.Forall₂ r l m) : Shuffled s (l.flatMap f) (m.flatMap g) := by
  induction h with
  | nil => exact ⟨[], .nil, .nil⟩
  | cons hab _ ih => exact (hfg _ _ hab).append ih

/-- If related elements yield the same in another order, so do lists of them. -/
lemma Shuffled.flatMap {f g : α → List β} (hfg : ∀ a b, r a b → Shuffled s (f a) (g b))
    (h : Shuffled r l m) : Shuffled s (l.flatMap f) (m.flatMap g) := by
  obtain ⟨n, hp, hr⟩ := h
  obtain ⟨n', hp', hr'⟩ := shuffled_flatMap_of_forall₂ hfg hr
  exact ⟨n', (hp.flatMap_right f).trans hp', hr'⟩

/-- A condition that does not tell related elements apart keeps shuffled lists shuffled. -/
lemma Shuffled.filter {p q : α → Bool} (hpq : ∀ a b, r a b → p a = q b) (h : Shuffled r l m) :
    Shuffled r (l.filter p) (m.filter q) := by
  obtain ⟨n, hp, hr⟩ := h
  refine ⟨n.filter p, hp.filter p, List.rel_filter ?_ hr⟩
  intro a b hab
  show p a = true ↔ q b = true
  rw [hpq a b hab]

/-- A shuffled list is empty exactly if the list is. -/
lemma Shuffled.eq_nil_iff (h : Shuffled r l m) : l = [] ↔ m = [] := by
  obtain ⟨n, hp, hr⟩ := h
  rw [← List.length_eq_zero_iff, ← List.length_eq_zero_iff, hp.length_eq, hr.length_eq]

end Shuffled

/-! ## Records in another order -/

/-- The same class, its methods in another order. -/
structure ClassDecl.Reordered (k k' : ClassDecl) : Prop where
  methods : k.methods.Perm k'.methods
  rest : k' = { k with methods := k'.methods }

/-- The same file, its functions, its classes and their methods in another order. -/
structure FileFacts.Reordered (f f' : FileFacts) : Prop where
  methods : f.methods.Perm f'.methods
  classes : Shuffled ClassDecl.Reordered f.classes f'.classes
  rest : f' = { f with methods := f'.methods, classes := f'.classes }

/-- The identifiers of a class and of its methods. -/
def ClassDecl.ids (k : ClassDecl) : List String := k.id :: k.methods.map Routine.id

/-- The identifiers of the functions and classes of a file and of their methods. The file level is
no function. -/
def FileFacts.ids (f : FileFacts) : List String :=
  (f.methods.filter fun r => r.name ≠ fileLevelName).map Routine.id ++
    f.classes.flatMap ClassDecl.ids

namespace ClassDecl.Reordered

variable {k k' : ClassDecl} (h : k.Reordered k')

include h

/-- A reordered class has its name. -/
lemma name_eq : k.name = k'.name := by rw [h.rest]

/-- A reordered class has its identifier. -/
lemma id_eq : k.id = k'.id := by rw [h.rest]

/-- A reordered class has a method that passes a test exactly if the class has one. -/
lemma any_methods (p : Routine → Bool) : k.methods.any p = k'.methods.any p := h.methods.any_eq

/-- A reordered class is the same target. -/
lemma ofClass_eq : Scan.Target.ofClass k = Scan.Target.ofClass k' := by
  rw [h.rest]
  rfl

/-- A reordered class has the same identifiers, in another order. -/
lemma perm_ids : k.ids.Perm k'.ids := by
  rw [ClassDecl.ids, ClassDecl.ids, h.id_eq]
  exact (h.methods.map Routine.id).cons _

end ClassDecl.Reordered

/-- A reordered file has the same identifiers, in another order. -/
lemma FileFacts.Reordered.perm_ids {f f' : FileFacts} (h : f.Reordered f') : f.ids.Perm f'.ids := by
  have hclasses : (f.classes.flatMap ClassDecl.ids).Perm (f'.classes.flatMap ClassDecl.ids) :=
    shuffled_eq_iff.1 (h.classes.flatMap fun k k' hk => shuffled_eq_iff.2 hk.perm_ids)
  exact ((h.methods.filter _).map Routine.id).append hclasses

namespace Scan

/-! ## Targets in another order -/

section Outcome

variable {o : ResolveOptions} {c : Call} {ts us : List Target}

/-- The targets that hints speak for are those that pass a test, each identifier once. -/
lemma keepHinted_eq_eraseDupsBy (c : Call) (ts : List Target) :
    keepHinted c ts =
      ((hintTests c).flatMap fun t => ts.filter t).eraseDupsBy fun a b => a.id = b.id := by
  rw [keepHinted_eq, eraseDupsBy_eq_foldl, List.foldl_flatMap]
  congr 1
  funext kept test
  rw [List.foldl_filter]
  congr 1
  funext kept t
  have hnew : (kept.all fun k => k.id ≠ t.id) = !kept.any fun k => t.id = k.id := by
    rw [List.not_any_eq_all_not]
    simp only [ne_eq, decide_not, eq_comm]
  rw [keepOnce, hnew]
  cases test t <;> cases kept.any (fun k => decide (t.id = k.id)) <;> simp

/-- What the hints select is one of the targets. -/
lemma mem_of_mem_hinted {t : Target}
    (ht : t ∈ (hintTests c).flatMap fun test => ts.filter test) : t ∈ ts := by
  obtain ⟨test, -, ht⟩ := List.mem_flatMap.1 ht
  exact List.mem_of_mem_filter ht

/-- Under distinct identifiers, hints speak for a target just if it passes a test. -/
lemma mem_keepHinted_iff (hids : (ts.map Target.id).Nodup) {t : Target} :
    t ∈ keepHinted c ts ↔ t ∈ ts ∧ ∃ test ∈ hintTests c, test t = true := by
  rw [keepHinted_eq_eraseDupsBy, mem_eraseDupsBy_iff]
  · simp only [List.mem_flatMap, List.mem_filter]
    tauto
  · intro a ha b hb hab
    exact List.inj_on_of_nodup_map hids (mem_of_mem_hinted ha) (mem_of_mem_hinted hb) hab

/-- What is near is one of the targets. -/
lemma mem_of_mem_near {t : Target} (ht : t ∈ near o c ts) : t ∈ ts := by
  unfold near at ht
  split at ht
  · split at ht
    · cases ht
    · exact List.mem_of_mem_filter ht
  · split at ht
    · rw [keepHinted_eq_eraseDupsBy] at ht
      exact mem_of_mem_hinted (mem_of_mem_eraseDupsBy ht)
    · exact ht

/-- Near targets have different identifiers if all targets have. -/
lemma nodup_near (hids : (ts.map Target.id).Nodup) : ((near o c ts).map Target.id).Nodup := by
  unfold near
  split
  · split
    · exact List.nodup_nil
    · exact hids.sublist (List.filter_sublist.map _)
  · split
    · rw [keepHinted_eq_eraseDupsBy]
      exact nodup_map_eraseDupsBy Target.id _
    · exact hids

/-- What is left by where a call stands does not depend on the order.

**Proof sketch.** Hints may well keep targets in another order, as they go through the targets once
for each hint. But they keep the same ones, and none twice. -/
lemma perm_near (h : ts.Perm us) (hids : (ts.map Target.id).Nodup) :
    (near o c ts).Perm (near o c us) := by
  have hids' : (us.map Target.id).Nodup := (h.map Target.id).nodup hids
  have hhinted : (keepHinted c ts).Perm (keepHinted c us) := by
    have hnodup : ∀ vs : List Target, (keepHinted c vs).Nodup := by
      intro vs
      rw [keepHinted_eq_eraseDupsBy]
      exact (nodup_map_eraseDupsBy Target.id _).of_map
    rw [List.perm_ext_iff_of_nodup (hnodup ts) (hnodup us)]
    intro t
    rw [mem_keepHinted_iff hids, mem_keepHinted_iff hids', h.mem_iff]
  unfold near
  split
  · split
    · exact .nil
    · exact h.filter _
  · split
    · exact hhinted
    · exact h

/-- The arguments of the call fit the target, and a method of another class is not private. -/
def mayReach (c : Call) (t : Target) : Bool :=
  t.takes c.arguments.length && !(c.kind.isClassBound && !c.isNative && t.isPrivate)

/-- The outcome of a call by one test of its targets. -/
lemma outcome_eq (o : ResolveOptions) (c : Call) (ts : List Target) :
    outcome o c ts =
      if o.ambiguityCap < (near o c ts).length then .ambiguous (near o c ts).length
      else if (near o c ts).filter (mayReach c) = [] then .unresolved
      else .resolved (.ofList
        (((near o c ts).filter (mayReach c)).map fun t => (t.id, t.file))) := by
  have hvisible : ∀ close : List Target,
      (if c.kind.isClassBound && !c.isNative then
        (close.filter (Target.takes c.arguments.length)).filter fun t => !t.isPrivate
      else close.filter (Target.takes c.arguments.length)) = close.filter (mayReach c) := by
    intro close
    cases hb : c.kind.isClassBound && !c.isNative with
    | true =>
      rw [if_pos rfl, List.filter_filter]
      refine List.filter_congr fun t _ => ?_
      simp [mayReach, hb, Bool.and_comm]
    | false =>
      rw [if_neg (by simp)]
      refine List.filter_congr fun t _ => ?_
      simp [mayReach, hb]
  simp only [outcome, hvisible]

/-- Under distinct identifiers the outcome of a call does not depend on the order of the targets. -/
theorem outcome_perm (h : ts.Perm us) (hids : (ts.map Target.id).Nodup) :
    outcome o c ts = outcome o c us := by
  have hnear : (near o c ts).Perm (near o c us) := perm_near h hids
  have hleft : ((near o c ts).filter (mayReach c)).Perm ((near o c us).filter (mayReach c)) :=
    hnear.filter _
  have hnil : (near o c ts).filter (mayReach c) = [] ↔ (near o c us).filter (mayReach c) = [] := by
    rw [← List.length_eq_zero_iff, ← List.length_eq_zero_iff, hleft.length_eq]
  have hfound : Dict.ofList (((near o c ts).filter (mayReach c)).map fun t => (t.id, t.file)) =
      Dict.ofList (((near o c us).filter (mayReach c)).map fun t => (t.id, t.file)) := by
    refine Dict.ofList_perm (hleft.map _) ?_
    rw [List.map_map]
    exact (nodup_near hids).sublist (List.filter_sublist.map _)
  rw [outcome_eq, outcome_eq]
  simp only [hnear.length_eq, hnil, hfound]

end Outcome

/-! ## Look-ups in another order -/

section Lookup

variable {files files' : ProjectFacts} (c : Call)

/-- A class has the same targets in whatever order its methods stand. -/
lemma perm_targetsIn {k k' : ClassDecl} (h : k.Reordered k') :
    (targetsIn c k).Perm (targetsIn c k') := by
  have hmethods : ∀ p : Routine → Bool, ((k.methods.filter p).map Target.ofRoutine).Perm
      ((k'.methods.filter p).map Target.ofRoutine) := fun p => (h.methods.filter p).map _
  have hnil : ∀ p : Routine → Bool, k.methods.filter p = [] ↔ k'.methods.filter p = [] := by
    intro p
    rw [← List.length_eq_zero_iff, ← List.length_eq_zero_iff, (h.methods.filter p).length_eq]
  simp only [targetsIn, hnil, h.ofClass_eq]
  split
  · split
    · exact .refl _
    · exact hmethods _
  · exact hmethods _

/-- Reordered classes are looked up alike: the tests read names and whether there is some method. -/
lemma shuffled_classesFor (h : Shuffled ClassDecl.Reordered files.classes files'.classes) :
    Shuffled ClassDecl.Reordered (classesFor files c) (classesFor files' c) := by
  have howners := h.filter fun k k' (hk : ClassDecl.Reordered k k') =>
    hk.any_methods fun m => m.fullname = c.fullname
  have hnamed : Shuffled ClassDecl.Reordered
      (files.classes.filter fun k => c.className = some k.name)
      (files'.classes.filter fun k => c.className = some k.name) :=
    h.filter fun k k' hk => by rw [hk.name_eq]
  have hmethod := h.filter fun k k' (hk : ClassDecl.Reordered k k') =>
    hk.any_methods fun m => m.name = c.name && !Builtin.isMagic m.name
  simp only [classesFor, ne_eq, howners.eq_nil_iff, hnamed.eq_nil_iff]
  split
  · exact howners
  · split
    · exact hnamed
    · split
      · exact ⟨[], .nil, .nil⟩
      · exact hmethod

/-- Reordered classes have the same targets, in another order. -/
lemma perm_classTargets (h : Shuffled ClassDecl.Reordered files.classes files'.classes) :
    (classTargets files c).Perm (classTargets files' c) :=
  shuffled_eq_iff.1 ((shuffled_classesFor c h).flatMap fun _ _ hk =>
    shuffled_eq_iff.2 (perm_targetsIn c hk))

/-- Reordered functions give the same targets, in another order. -/
lemma perm_functionTargets (h : files.functions.Perm files'.functions) :
    (functionTargets files c).Perm (functionTargets files' c) :=
  (h.filter _).map _

/-- A target in a class is the class or one of its methods. -/
lemma map_id_targetsIn_sublist (k : ClassDecl) :
    ((targetsIn c k).map Target.id).Sublist k.ids := by
  have hmethods : ∀ p : Routine → Bool,
      (((k.methods.filter p).map Target.ofRoutine).map Target.id).Sublist k.ids := by
    intro p
    rw [List.map_map]
    exact .cons _ (List.filter_sublist.map Routine.id)
  simp only [targetsIn]
  split
  · split
    · exact .cons_cons _ (List.nil_sublist _)
    · exact hmethods _
  · exact hmethods _

/-- The targets in classes have different identifiers if the members of all classes have. -/
lemma nodup_classTargets (h : (files.classes.flatMap ClassDecl.ids).Nodup) :
    ((classTargets files c).map Target.id).Nodup := by
  rw [classTargets, List.map_flatMap]
  refine h.sublist ?_
  exact (List.Sublist.flatMap_right _ fun k _ => map_id_targetsIn_sublist c k).trans
    ((classesFor_sublist files c).flatMap _)

/-- The targets among functions have different identifiers if the functions have. -/
lemma nodup_functionTargets (h : (files.functions.map Routine.id).Nodup) :
    ((functionTargets files c).map Target.id).Nodup := by
  rw [functionTargets, List.map_map]
  exact h.sublist (List.filter_sublist.map _)

end Lookup

end Scan

/-- The outcome of a call of a function is that of the targets which the scan finds. -/
lemma Index.resolve_eq_outcome_functionTargets {files : ProjectFacts}
    (h : (files.functions.map Routine.id).Nodup) (o : ResolveOptions) {c : Call}
    (hk : c.kind = .general) :
    (ofProject files).resolve o c = Scan.outcome o c (Scan.functionTargets files c) := by
  rw [← map_target_functionCandidates h, ← Call.select_eq_outcome, Index.resolve, Index.candidates,
    hk]
  rfl

/-! ## Files in any order -/

namespace ProjectFacts

/-- Any files in any order are those of a project: longer and longer names ascend. -/
lemma exists_values_eq (fs : List FileFacts) : ∃ files : ProjectFacts, files.values = fs := by
  have hlonger : ∀ m n : Nat, m < n →
      String.ofList (List.replicate m 'a') < String.ofList (List.replicate n 'a') := by
    intro m n hmn
    rw [String.lt_iff, String.toList_ofList, String.toList_ofList]
    induction m generalizing n with
    | zero =>
      obtain ⟨n, rfl⟩ := Nat.exists_eq_add_of_lt hmn
      exact List.nil_lt_cons _ _
    | succ m ih =>
      obtain ⟨n, rfl⟩ : ∃ n', n = n' + 1 := ⟨n - 1, by omega⟩
      exact List.cons_lt_cons_iff.2 (.inr ⟨rfl, ih n (by omega)⟩)
  have hplaces : fs.zipIdx.Pairwise fun a b => a.2 < b.2 := by
    rw [← List.pairwise_map, List.zipIdx_map_snd]
    exact List.pairwise_lt_range'
  refine ⟨⟨fs.zipIdx.map fun e => (String.ofList (List.replicate e.2 'a'), e.1), ?_⟩, ?_⟩
  · rw [Ascending, List.pairwise_map]
    exact hplaces.imp fun hab => hlonger _ _ hab
  · rw [Dict.values, List.map_map]
    exact List.zipIdx_map_fst 0 fs

section DistinctIds

variable {files : ProjectFacts} (h : (files.values.flatMap FileFacts.ids).Nodup)

include h

/-- Where all identifiers are different, those of the functions are. -/
lemma nodup_functions_of_ids : (files.functions.map Routine.id).Nodup := by
  rw [functions, List.map_flatMap]
  exact h.sublist (List.Sublist.flatMap_right _ fun f _ => List.sublist_append_left _ _)

/-- Where all identifiers are different, those of the members of classes are. -/
lemma nodup_members_of_ids : (files.classes.flatMap ClassDecl.ids).Nodup := by
  rw [classes, List.flatMap_assoc]
  exact h.sublist (List.Sublist.flatMap_right _ fun f _ => List.sublist_append_right _ _)

/-- Where all identifiers are different, those of the classes are. -/
lemma nodup_classes_of_ids : (files.classes.map ClassDecl.id).Nodup := by
  rw [List.map_eq_flatMap]
  refine (nodup_members_of_ids h).sublist (List.Sublist.flatMap_right _ fun k _ => ?_)
  exact .cons_cons _ (List.nil_sublist _)

end DistinctIds

end ProjectFacts

/-- **The outcome of a call does not depend on the order of the records.** Let the identifiers of
the functions, classes and methods of some files be distinct. If the files are put in another order,
and so are the functions and classes in a file and the methods in a class, then for every call and
all options the index of the files gives the same outcome.

**Proof sketch.** The index finds the targets that a plain scan finds. Reordered records have the
same targets, in another order, and these have distinct identifiers. So what is left of them by
hints is the same up to order, and the map and the number of what is left do not depend on the
order. -/
theorem resolve_ofFiles_reordered {fs gs : List FileFacts} (h : Shuffled FileFacts.Reordered fs gs)
    (hids : (fs.flatMap FileFacts.ids).Nodup) (o : ResolveOptions) (c : Call) :
    (Index.ofFiles fs).resolve o c = (Index.ofFiles gs).resolve o c := by
  have hids' : (gs.flatMap FileFacts.ids).Nodup := by
    have hperm : (fs.flatMap FileFacts.ids).Perm (gs.flatMap FileFacts.ids) :=
      shuffled_eq_iff.1 (h.flatMap fun f f' hf => shuffled_eq_iff.2 hf.perm_ids)
    exact hperm.nodup hids
  obtain ⟨files, rfl⟩ := ProjectFacts.exists_values_eq fs
  obtain ⟨files', rfl⟩ := ProjectFacts.exists_values_eq gs
  have hfunctions : files.functions.Perm files'.functions :=
    shuffled_eq_iff.1 (h.flatMap fun f f' hf => shuffled_eq_iff.2 (hf.methods.filter _))
  have hclasses : Shuffled ClassDecl.Reordered files.classes files'.classes :=
    h.flatMap fun f f' hf => hf.classes
  show (Index.ofProject files).resolve o c = (Index.ofProject files').resolve o c
  cases hk : c.kind with
  | builtin | dynamic => simp only [Index.resolve, hk]
  | general =>
    have hnodup := ProjectFacts.nodup_functions_of_ids hids
    rw [Index.resolve_eq_outcome_functionTargets hnodup o hk,
      Index.resolve_eq_outcome_functionTargets (ProjectFacts.nodup_functions_of_ids hids') o hk]
    exact Scan.outcome_perm (Scan.perm_functionTargets c hfunctions)
      (Scan.nodup_functionTargets c hnodup)
  | construct | magic | classMethod =>
    have hb : c.kind.isClassBound = true := by
      rw [hk]
      rfl
    rw [Index.resolve_eq_outcome_classTargets (ProjectFacts.nodup_classes_of_ids hids) o hb,
      Index.resolve_eq_outcome_classTargets (ProjectFacts.nodup_classes_of_ids hids') o hb]
    exact Scan.outcome_perm (Scan.perm_classTargets c hclasses)
      (Scan.nodup_classTargets c (ProjectFacts.nodup_members_of_ids hids))

/-- A class with the given methods, which lies in a namespace with them. -/
def ClassDecl.waiting (id name space : String) (methods : List (String × String)) : ClassDecl :=
  { id, name, inNamespace := some space, file := "a.php", startLine := 2, endLine := 9,
    methods := methods.map fun m =>
      { id := m.1, name := m.2, fullname := name ++ "->" ++ m.2, className := some name,
        file := "a.php", inNamespace := some space, startLine := 3, endLine := 3,
        kind := .classMethod } }

/-- A file with two classes, in either order, of which one has two methods, in either order. -/
def FileFacts.waiting (swapped : Bool) : FileFacts :=
  if swapped then
    { classes := [.waiting "k2" "Cook" "Kitchen" [("m3", "serve")],
                  .waiting "k1" "Waiter" "Hall" [("m2", "greet"), ("m1", "serve")]] }
  else
    { classes := [.waiting "k1" "Waiter" "Hall" [("m1", "serve"), ("m2", "greet")],
                  .waiting "k2" "Cook" "Kitchen" [("m3", "serve")]] }

/-- A file with one class. -/
def FileFacts.helping : FileFacts :=
  { classes := [.waiting "k3" "Helper" "Hall" [("m4", "serve")]] }

/-- A call of a method of an unknown class, which uses one namespace after the other. -/
def Call.serve : Call :=
  { name := "serve", fullname := "$x->serve", startLine := 5, endLine := 5, kind := .classMethod,
    mayNamespaces := ["Kitchen", "Hall"] }

open FileFacts in
/-- Three methods are found by two hints, in whatever order the files, classes and methods come. -/
theorem resolve_ofFiles_reordered_serve :
    Shuffled FileFacts.Reordered [waiting false, helping] [helping, waiting true] ∧
      ([waiting false, helping].flatMap FileFacts.ids).Nodup ∧
      (Index.ofFiles [waiting false, helping]).resolve { importFilter := true } Call.serve =
        (Index.ofFiles [helping, waiting true]).resolve { importFilter := true } Call.serve ∧
      ((Index.ofFiles [helping, waiting true]).resolve { importFilter := true }
        Call.serve).mayBeSource =
          some (.ofList [("m1", "a.php"), ("m3", "a.php"), ("m4", "a.php")]) := by
  have hsame : ∀ k : ClassDecl, k.Reordered k := fun k => ⟨.refl _, rfl⟩
  have hhelping : helping.Reordered helping :=
    ⟨.refl _, ⟨_, .refl _, .cons (hsame _) .nil⟩, rfl⟩
  have hwaiting : (waiting false).Reordered (waiting true) :=
    ⟨.refl _, ⟨_, .swap _ _ _, .cons (hsame _) (.cons ⟨.swap _ _ _, rfl⟩ .nil)⟩, rfl⟩
  have hfiles : Shuffled FileFacts.Reordered [waiting false, helping] [helping, waiting true] :=
    ⟨_, .swap _ _ _, .cons hhelping (.cons hwaiting .nil)⟩
  have hids : ([waiting false, helping].flatMap FileFacts.ids).Nodup := by decide +kernel
  exact ⟨hfiles, hids, resolve_ofFiles_reordered hfiles hids _ _, by decide +kernel⟩

end PhpCalls
