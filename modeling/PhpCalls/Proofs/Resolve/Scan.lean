import PhpCalls.Proofs.Resolve.Index
import PhpCalls.Resolve.Resolver

set_option autoImplicit false

/-!
# Resolving a call by a plain scan

A resolver that uses no index: it reads through all functions and classes of a project for every
call. It borrows nothing from the look-ups and the filters of the index, and where identifiers are
distinct the two give the same outcome for every call.

## Main definitions

* `Scan.Target`: what resolution sees of a declaration.
* `Scan.classesFor`, `Scan.targetsIn`: the classes that a call is looked for in, and the targets
  there.
* `Scan.keepHinted`: the targets that the hints of a call speak for, by two plain loops.
* `Scan.resolve`: the outcome for a call.

## Main results

* `Call.select_eq_outcome`: narrowing sees of a candidate no more than its target.
* `resolve_ofProject_eq_scan`: with distinct identifiers, the index and the scan agree on every
  call.
-/

namespace PhpCalls

namespace Scan

/-! ## Targets -/

/-- What resolution sees of a declaration. -/
structure Target where
  id : String
  file : String
  inNamespace : Option String
  /-- The number of parameters; absent if any number of arguments fits. -/
  parameters : Option Nat
  isPrivate : Bool
deriving DecidableEq

/-- A function or method as a target. -/
def Target.ofRoutine (r : Routine) : Target :=
  { id := r.id, file := r.file, inNamespace := r.inNamespace,
    parameters := some r.parameters.length, isPrivate := r.visibility = .owner }

/-- A class without a constructor as a target. -/
def Target.ofClass (k : ClassDecl) : Target :=
  { id := k.id, file := k.file, inNamespace := k.inNamespace, parameters := none,
    isPrivate := false }

/-- There are as many parameters as arguments. -/
def Target.takes (arguments : Nat) (t : Target) : Bool := t.parameters.all fun n => arguments ≤ n

/-! ## Reading through the declarations -/

/-- The functions of the call's name. -/
def functionTargets (files : ProjectFacts) (c : Call) : List Target :=
  (files.functions.filter fun f => f.name = c.name).map .ofRoutine

/-- The classes that a call is looked for in: those that own a method of the call's full name; if
there are none, those of the call's class name; if there are none and the call creates no object,
those that own a method of the call's name that is no hook. -/
def classesFor (files : ProjectFacts) (c : Call) : List ClassDecl :=
  let owners := files.classes.filter fun k => k.methods.any fun m => m.fullname = c.fullname
  let named := files.classes.filter fun k => c.className = some k.name
  let byMethod := files.classes.filter fun k =>
    k.methods.any fun m => m.name = c.name && !Builtin.isMagic m.name
  if owners ≠ [] then owners
  else if named ≠ [] then named
  else if c.kind = .construct then []
  else byMethod

/-- The targets of a call in a class: its constructors in any case of their letters, or the class
itself if it has none, for the creation of an object; the methods of the call's full name or name
otherwise. -/
def targetsIn (c : Call) (k : ClassDecl) : List Target :=
  if c.kind = .construct then
    let constructors := k.methods.filter fun m => Text.foldCase m.name = "__construct"
    if constructors = [] then [.ofClass k] else constructors.map .ofRoutine
  else (k.methods.filter fun m => m.fullname = c.fullname || m.name = c.name).map .ofRoutine

/-- The targets of a call in classes. -/
def classTargets (files : ProjectFacts) (c : Call) : List Target :=
  (classesFor files c).flatMap (targetsIn c)

/-! ## Narrowing -/

/-- One turn of a loop that keeps what passes a test, each identifier once. -/
def keepOnce (test : Target → Bool) (kept : List Target) (t : Target) : List Target :=
  if test t && kept.all fun k => k.id ≠ t.id then kept ++ [t] else kept

/-- The targets that the hints of a call speak for: for each used namespace the targets whose
namespace holds it, then for each included file the targets whose file holds its path. -/
def keepHinted (c : Call) (ts : List Target) : List Target :=
  let byNamespace := c.mayNamespaces.foldl
    (fun kept written =>
      let hint := Text.slashed written
      if hint = "" then kept
      else ts.foldl
        (keepOnce fun t => t.inNamespace.any fun n => Text.contains (Text.slashed n) hint) kept)
    []
  c.mayFiles.foldl
    (fun kept written =>
      match importHint? written with
      | none => kept
      | some path => ts.foldl (keepOnce fun t => Text.contains t.file path) kept)
    byNamespace

/-- The targets that are left by where the call stands. -/
def near (o : ResolveOptions) (c : Call) (ts : List Target) : List Target :=
  if c.isNative then
    match c.file with
    | none => []
    | some file => ts.filter fun t => t.file = file
  else if o.importFilter && (c.mayFiles ≠ [] || c.mayNamespaces ≠ []) then keepHinted c ts
  else ts

/-- The outcome of a call for which `ts` were found. -/
def outcome (o : ResolveOptions) (c : Call) (ts : List Target) : Outcome :=
  let close := near o c ts
  if o.ambiguityCap < close.length then .ambiguous close.length
  else
    let fitting := close.filter (Target.takes c.arguments.length)
    let visible :=
      if c.kind.isClassBound && !c.isNative then fitting.filter fun t => !t.isPrivate else fitting
    if visible = [] then .unresolved
    else .resolved (.ofList (visible.map fun t => (t.id, t.file)))

/-- The outcome for a call, by reading through all declarations of a project. -/
def resolve (files : ProjectFacts) (o : ResolveOptions) (c : Call) : Outcome :=
  match c.kind with
  | .builtin => .builtin
  | .dynamic => .dynamic
  | .general => outcome o c (functionTargets files c)
  | .construct | .magic | .classMethod => outcome o c (classTargets files c)

end Scan

/-! ## Candidates as targets -/

open Scan

/-- What resolution sees of a candidate. -/
def Candidate.target : Candidate → Target
  | .declared r => .ofRoutine r
  | .implicitConstructor k => .ofClass k

namespace Candidate

/-- A candidate and its target have one identifier. -/
@[simp] lemma target_id (k : Candidate) : k.target.id = k.id := by cases k <;> rfl

/-- A candidate and its target lie in one file. -/
@[simp] lemma target_file (k : Candidate) : k.target.file = k.file := by cases k <;> rfl

/-- A candidate and its target lie in one namespace. -/
@[simp] lemma target_inNamespace (k : Candidate) : k.target.inNamespace = k.inNamespace := by
  cases k <;> rfl

/-- A candidate and its target take the same numbers of arguments. -/
@[simp] lemma takes_target (n : Nat) (k : Candidate) : k.target.takes n = k.accepts n := by
  cases k <;> simp [target, Target.ofRoutine, Target.ofClass, Target.takes, accepts]

/-- A candidate is private exactly if its target is. -/
@[simp] lemma target_isPrivate (k : Candidate) : k.target.isPrivate = k.isPrivate := by
  cases k <;> rfl

end Candidate

/-! ## Narrowing sees targets only -/

/-- Keeping by tests on targets is a loop over the tests around a loop over the targets. -/
lemma Call.map_target_keepByTests (tests : List (Target → Bool)) (cs : List Candidate) :
    (keepByTests (tests.map fun t k => t k.target) cs).map Candidate.target =
      tests.foldl (fun kept t => (cs.map Candidate.target).foldl (keepOnce t) kept) [] := by
  rw [keepByTests, eraseDupsBy_eq_foldl, List.flatMap_map, List.foldl_flatMap]
  refine (List.foldl_hom (List.map Candidate.target) ?_).symm
  intro kept test
  rw [List.foldl_map, List.foldl_filter]
  refine List.foldl_hom (List.map Candidate.target) ?_
  intro kept k
  have hnew : ((kept.map Candidate.target).all fun q => q.id ≠ k.target.id) =
      !kept.any fun q => k.id = q.id := by
    rw [List.all_map, List.not_any_eq_all_not]
    refine congrArg (List.all kept) ?_
    funext q
    simp [eq_comm]
  rw [keepOnce, hnew]
  cases test k.target <;> cases kept.any (fun q => decide (k.id = q.id)) <;> simp

/-- The tests that the call's hints give, on targets. -/
def Scan.hintTests (c : Call) : List (Target → Bool) :=
  (((c.mayNamespaces.map Text.slashed).filter fun n => n ≠ "").map fun hint (t : Target) =>
      t.inNamespace.any fun n => Text.contains (Text.slashed n) hint)
    ++ (c.mayFiles.filterMap importHint?).map fun path t => Text.contains t.file path

/-- The tests of candidates are the tests of their targets. -/
lemma Call.hintTests_eq (c : Call) :
    c.hintTests = (Scan.hintTests c).map fun t k => t k.target := by
  simp only [Call.hintTests, Scan.hintTests, List.map_append, List.map_map]
  congr 1
  · refine congrArg (List.map · _) ?_
    funext hint k
    simp [inHintedNamespace]
  · refine congrArg (List.map · _) ?_
    funext path k
    simp

/-- Hinted targets are kept test by test, each once. -/
lemma Scan.keepHinted_eq (c : Call) (ts : List Target) :
    keepHinted c ts =
      (Scan.hintTests c).foldl (fun kept t => ts.foldl (keepOnce t) kept) [] := by
  simp only [Scan.hintTests, List.foldl_append, List.foldl_map, List.foldl_filter,
    List.foldl_filterMap]
  unfold keepHinted
  refine congrArg₂ (fun step kept => List.foldl step kept c.mayFiles) ?_ ?_
  · funext kept written
    cases importHint? written with
    | none => rfl
    | some path => rfl
  · refine congrArg (fun step => List.foldl step [] c.mayNamespaces) ?_
    funext kept written
    by_cases h : Text.slashed written = ""
    · simp only [h, if_true, ne_eq, not_true_eq_false, decide_false, Bool.false_eq_true, if_false]
    · simp only [h, if_false, ne_eq, not_false_eq_true, decide_true, if_true]

/-- What is left by where a call stands, as targets. -/
lemma Call.map_target_narrow (o : ResolveOptions) (c : Call) (cs : List Candidate) :
    (c.narrow o cs).map Candidate.target = near o c (cs.map Candidate.target) := by
  by_cases hn : c.isNative
  · simp only [narrow, near, hn, if_true, sameFile]
    cases hf : c.file with
    | none => simp
    | some file =>
      change _ = (cs.map Candidate.target).filter fun t => t.file = file
      rw [List.filter_map]
      refine congrArg _ (List.filter_congr fun k _ => ?_)
      simp [eq_comm]
  · have hints : c.hasImportHints = (c.mayFiles ≠ [] || c.mayNamespaces ≠ []) := by
      cases hf : c.mayFiles <;> cases hm : c.mayNamespaces <;> simp [hasImportHints, hf, hm]
    simp only [narrow, near, hn, hints]
    by_cases ho : (o.importFilter && (c.mayFiles ≠ [] || c.mayNamespaces ≠ [])) = true
    · rw [if_neg (by simp), if_pos ho, if_neg (by simp), if_pos ho, filterByImports, hintTests_eq,
        map_target_keepByTests, keepHinted_eq]
    · rw [if_neg (by simp), if_neg ho, if_neg (by simp), if_neg ho]

/-- The candidates that a call may reach, as targets: first the arguments are looked at, then the
visibility. -/
lemma Call.map_target_filter_mayReach (c : Call) (cs : List Candidate) :
    (cs.filter c.mayReach).map Candidate.target =
      if c.kind.isClassBound && !c.isNative then
        ((cs.map Candidate.target).filter (Target.takes c.arguments.length)).filter
          fun t => !t.isPrivate
      else (cs.map Candidate.target).filter (Target.takes c.arguments.length) := by
  cases hb : c.kind.isClassBound && !c.isNative with
  | true =>
    rw [if_pos rfl, List.filter_filter, List.filter_map]
    refine congrArg _ (List.filter_congr fun k _ => ?_)
    simp [mayReach, hb, Bool.and_comm]
  | false =>
    rw [if_neg (by simp), List.filter_map]
    refine congrArg _ (List.filter_congr fun k _ => ?_)
    simp [mayReach, hb]

/-- The outcome of a call depends on the candidates only through their targets. -/
theorem Call.select_eq_outcome (o : ResolveOptions) (c : Call) (cs : List Candidate) :
    c.select o cs = outcome o c (cs.map Candidate.target) := by
  have hlen : (near o c (cs.map Candidate.target)).length = (c.narrow o cs).length := by
    rw [← map_target_narrow, List.length_map]
  simp only [select_eq, outcome, hlen]
  by_cases hcap : o.ambiguityCap < (c.narrow o cs).length
  · rw [if_pos hcap, if_pos hcap]
  · rw [if_neg hcap, if_neg hcap, ← map_target_narrow, ← map_target_filter_mayReach]
    cases (c.narrow o cs).filter c.mayReach with
    | nil => rfl
    | cons k ks => simp [Function.comp_def]

/-! ## The look-ups are scans -/

/-- The methods in the summary of a class that pass a test which does not read their calls, as
targets. -/
lemma ClassDecl.map_target_filter_methods (k : ClassDecl) {p : Routine → Bool}
    (hp : ∀ m, p m.summary = p m) :
    ((k.summary.methods.filter p).map Candidate.declared).map Candidate.target =
      (k.methods.filter p).map Target.ofRoutine := by
  rw [show k.summary.methods = k.methods.map Routine.summary from rfl, List.filter_map,
    List.map_map, List.map_map, show p ∘ Routine.summary = p from funext hp]
  rfl

/-- A class has a constructor exactly if one of its methods is named so, in any case of letters. -/
lemma ClassDecl.hasConstructor_summary (k : ClassDecl) : k.summary.hasConstructor =
    !(k.methods.filter fun m => Text.foldCase m.name = "__construct").isEmpty := by
  have hany : k.summary.hasConstructor = k.methods.any fun m =>
      Text.foldCase m.name = "__construct" := by
    rw [hasConstructor, show k.summary.methods = k.methods.map Routine.summary from rfl,
      List.any_map]
    exact congrArg k.methods.any (funext fun m => Builtin.isConstructor_eq_decide m.name)
  rw [hany, Bool.eq_iff_iff]
  simp

/-- The candidates in the summary of a class, as targets. -/
lemma ClassDecl.map_target_candidates (c : Call) (k : ClassDecl) :
    (k.summary.candidates c).map Candidate.target = targetsIn c k := by
  by_cases hc : c.kind = .construct
  · have hp : Routine.isTargetOf c = fun m => decide (Text.foldCase m.name = "__construct") := by
      funext m
      rw [Routine.isTargetOf, if_pos hc]
      exact Builtin.isConstructor_eq_decide m.name
    rw [candidates, targetsIn, if_pos hc, hasConstructor_summary, hp]
    cases hm : k.methods.filter fun m => decide (Text.foldCase m.name = "__construct") with
    | nil =>
      simp [hc]
      rfl
    | cons m ms =>
      rw [if_neg (by simp), map_target_filter_methods k fun _ => rfl, hm]
      rfl
  · have hp : Routine.isTargetOf c = fun m => m.fullname = c.fullname || m.name = c.name := by
      funext m
      rw [Routine.isTargetOf, if_neg hc]
    rw [candidates, targetsIn, if_neg hc, if_neg (by simp [hc]), hp,
      map_target_filter_methods k fun _ => rfl]

/-- A call is looked for in classes of the project, in their order. -/
lemma Scan.classesFor_sublist (files : ProjectFacts) (c : Call) :
    (classesFor files c).Sublist files.classes := by
  simp only [classesFor]
  split
  · exact List.filter_sublist
  · split
    · exact List.filter_sublist
    · split
      · exact List.nil_sublist _
      · exact List.filter_sublist

/-- The classes in which a call is looked for are among those of the project. -/
lemma Scan.classesFor_subset (files : ProjectFacts) (c : Call) :
    classesFor files c ⊆ files.classes := (classesFor_sublist files c).subset

/-- The functions that a call may mean, as targets. -/
lemma Index.map_target_functionCandidates {files : ProjectFacts}
    (h : (files.functions.map Routine.id).Nodup) (c : Call) :
    ((ofProject files).functionCandidates c).map Candidate.target = functionTargets files c := by
  rw [functionCandidates, functionsNamed_of_nodup h,
    filterMap_function?_of_nodup h (List.filter_subset_self _), List.map_map, List.map_map]
  rfl

section DistinctClasses

variable {files : ProjectFacts} (h : (files.classes.map ClassDecl.id).Nodup)

include h

/-- The identifiers of the classes that a call is looked for in. -/
lemma Index.classesFor_of_nodup (c : Call) :
    (ofProject files).classesFor c = (Scan.classesFor files c).map ClassDecl.id := by
  have hnamed : (c.className.map (ofProject files).classesNamed).getD [] =
      (files.classes.filter fun k => c.className = some k.name).map ClassDecl.id := by
    cases c.className with
    | none => simp
    | some name => simp [classesNamed_of_nodup h, eq_comm]
  have hmethod : (ofProject files).classesWithMethod c.name =
      (files.classes.filter fun k =>
        k.methods.any fun m => m.name = c.name && !Builtin.isMagic m.name).map ClassDecl.id := by
    rw [classesWithMethod_of_nodup h]
    simp only [Bool.and_comm]
  rw [Index.classesFor, hnamed, hmethod, classesWithFullname_of_nodup h, Scan.classesFor]
  -- the tiers are empty together, and the first that is not empty is taken on both sides
  cases files.classes.filter fun k => k.methods.any fun m => m.fullname = c.fullname with
  | cons k ks => rfl
  | nil =>
    cases files.classes.filter fun k => c.className = some k.name with
    | cons k ks => rfl
    | nil =>
      by_cases hc : c.kind = .construct
      · simp [hc]
      · simp [hc]

/-- The methods and classes that a call may mean, as targets. -/
lemma Index.map_target_classCandidates (c : Call) :
    ((ofProject files).classCandidates c).map Candidate.target = classTargets files c := by
  rw [classCandidates, classesFor_of_nodup h, filterMap_class?_of_nodup h
    (classesFor_subset files c), List.flatMap_map, List.map_flatMap, classTargets]
  refine congrArg (List.flatMap · _) ?_
  funext k
  exact k.map_target_candidates c

/-- The outcome of a call of a method or constructor is that of the targets which the scan finds. -/
lemma Index.resolve_eq_outcome_classTargets (o : ResolveOptions) {c : Call}
    (hb : c.kind.isClassBound = true) :
    (ofProject files).resolve o c = outcome o c (classTargets files c) := by
  rw [← map_target_classCandidates h, ← Call.select_eq_outcome, Index.resolve, Index.candidates,
    if_pos hb]
  cases hk : c.kind with
  | builtin | dynamic | general => exact absurd (hk ▸ hb) (by decide)
  | construct | magic | classMethod => rfl

end DistinctClasses

/-! ## The index and the scan -/

/-- **Resolution by the index is a plain scan.** If no two functions have one identifier, and no two
classes, then for every call and all options the index of a project gives the outcome that reading
through all records of the project gives.

**Proof sketch.** Narrowing sees only the targets of the candidates (`Call.select_eq_outcome`), so
it is enough that the candidates have the targets that the scan finds. Under distinct identifiers
the registries list one identifier for each matching declaration, in the same order, and the look-up
by identifier gives back that declaration. -/
theorem resolve_ofProject_eq_scan (files : ProjectFacts) (h : files.DistinctIds)
    (o : ResolveOptions) (c : Call) :
    (Index.ofProject files).resolve o c = Scan.resolve files o c := by
  cases hk : c.kind with
  | builtin | dynamic => simp only [Index.resolve, Scan.resolve, hk]
  | general =>
    simp only [Index.resolve, Scan.resolve, hk]
    rw [Call.select_eq_outcome, Index.candidates, if_neg (by simp [hk, CallKind.isClassBound]),
      Index.map_target_functionCandidates h.functions]
  | construct | magic | classMethod =>
    rw [Index.resolve_eq_outcome_classTargets h.classes o (by rw [hk]; rfl)]
    simp only [Scan.resolve, hk]

/-- Two files that declare a class of one name: the first with a constructor in capitals, the second
without one. -/
def Scan.twoShops : ProjectFacts where
  entries :=
    [("a.php",
      { methods := [{ id := "f1", name := "open", fullname := "open", startLine := 9, endLine := 9,
                      kind := .general }],
        classes := [{ id := "k1", name := "Shop", file := "a.php", startLine := 2, endLine := 4,
                      methods := [{ id := "m1", name := "__CONSTRUCT", file := "a.php",
                                    fullname := "Shop::__construct", startLine := 3, endLine := 3,
                                    parameters := [{ index := 0 }], kind := .construct }] }] }),
     ("b.php",
      { classes := [{ id := "k2", name := "Shop", file := "b.php", startLine := 2,
                      endLine := 2 }] })]
  ascending := by decide +kernel

/-- The creation of an object of a class that is known by its name only. -/
def Scan.newShop : Call :=
  { name := "__construct", fullname := "\\Shop::__construct", startLine := 7, endLine := 7,
    className := some "Shop", kind := .construct, arguments := [{ index := 0 }] }

/-- A call that means the constructor in one file and the class itself in the other. -/
theorem resolve_ofProject_eq_scan_newShop :
    twoShops.DistinctIds ∧
      (Index.ofProject twoShops).resolve {} newShop = Scan.resolve twoShops {} newShop ∧
      (Scan.resolve twoShops {} newShop).mayBeSource =
        some (.ofList [("m1", "a.php"), ("k2", "b.php")]) := by
  have hids : twoShops.DistinctIds := ⟨by decide +kernel, by decide +kernel⟩
  exact ⟨hids, resolve_ofProject_eq_scan twoShops hids {} newShop, by decide +kernel⟩

end PhpCalls
