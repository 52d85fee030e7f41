import Mathlib.Data.List.Forall2
import PhpCalls.Proofs.Resolve.Repetition
import PhpCalls.Proofs.Resolve.Tally

set_option autoImplicit false

/-!
# Raising the bound on candidates

The bound on the number of candidates stands before the tests of arguments and visibility, so it
decides alone whether a call is ambiguous. Two runs on one project with the same import filter and
two bounds look up and narrow the same candidates. Under the greater bound the calls that were
decided are decided alike, and the others become decided or stay ambiguous; the tally, the edges and
the callers only follow.

## Main definitions

* `Outcome.isAmbiguous`: the bound was exceeded.
* `Call.Raised`, `Routine.Raised`, `Resolved.Raised`: a call, a routine and a resolved project under
  the smaller and under the greater bound.

## Main results

* `Index.resolve_of_le`: the outcome of a call that the smaller bound decides.
* `Call.settled_of_le`: what such a call keeps.
* `raised_resolve`: the two runs compared.
-/

namespace PhpCalls

/-! ## One call -/

/-- There were more candidates than are believed. -/
def Outcome.isAmbiguous : Outcome → Bool
  | .ambiguous _ => true
  | .resolved _ | .unresolved | .builtin | .dynamic => false

variable {i : Index} {filter : Bool} {k k' : Nat} {c : Call}

/-- The candidates to which the bound is applied do not depend on it. -/
lemma Call.select_of_le (hk : k ≤ k') {cs : List Candidate}
    (h : (c.select ⟨filter, k⟩ cs).isAmbiguous = false) :
    c.select ⟨filter, k'⟩ cs = c.select ⟨filter, k⟩ cs := by
  have hnear : c.narrow ⟨filter, k'⟩ cs = c.narrow ⟨filter, k⟩ cs := rfl
  have hle : ¬ k < (c.narrow ⟨filter, k⟩ cs).length := by
    intro hlt
    simp [select_eq, hlt, Outcome.isAmbiguous] at h
  have hle' : ¬ k' < (c.narrow ⟨filter, k⟩ cs).length := by omega
  simp only [select_eq, hnear, if_neg hle, if_neg hle']

/-- A call that the smaller bound decides has the same outcome under the greater one. -/
theorem Index.resolve_of_le (hk : k ≤ k') (h : (i.resolve ⟨filter, k⟩ c).isAmbiguous = false) :
    i.resolve ⟨filter, k'⟩ c = i.resolve ⟨filter, k⟩ c := by
  cases hkind : c.kind with
  | builtin | dynamic => simp only [resolve, hkind]
  | general | construct | magic | classMethod =>
    simp only [resolve, hkind] at h ⊢
    exact Call.select_of_le hk h

namespace Call

/-- A call keeps an empty map just if it is ambiguous. -/
lemma isAmbiguous_settled (i : Index) (o : ResolveOptions) (c : Call) :
    (c.settled i o).isAmbiguous = (i.resolve o c).isAmbiguous := by
  have hfits := i.fits_resolve o c
  cases hx : i.resolve o c with
  | resolved candidates =>
    rw [hx] at hfits
    simp [settled, isAmbiguous, hx, Outcome.mayBeSource, Outcome.isAmbiguous, hfits.2]
  | ambiguous count =>
    simp [settled, isAmbiguous, hx, Outcome.mayBeSource, Outcome.isAmbiguous, Dict.isEmpty,
      Dict.empty]
  | unresolved | builtin | dynamic =>
    simp [settled, isAmbiguous, hx, Outcome.mayBeSource, Outcome.isAmbiguous]

/-- A call that keeps candidates, or that keeps nothing, is not ambiguous. -/
lemma isAmbiguous_eq_false_of_isResolved (h : c.isResolved = true) : c.isAmbiguous = false := by
  unfold isResolved at h
  unfold isAmbiguous
  cases hm : c.mayBeSource with
  | none => rfl
  | some m => simpa [hm] using h

/-- An unresolved call is not ambiguous. -/
lemma isAmbiguous_eq_false_of_isUnresolved (h : c.isUnresolved = true) : c.isAmbiguous = false := by
  unfold isUnresolved at h
  obtain ⟨-, hm⟩ := Bool.and_eq_true_iff.1 h
  rw [isAmbiguous, Option.isNone_iff_eq_none.1 hm]
  rfl

/-- A call that lists a candidate is not ambiguous. -/
lemma isAmbiguous_eq_false_of_lists {id : String} (h : c.lists id = true) :
    c.isAmbiguous = false := by
  unfold lists at h
  obtain ⟨m, hm, hid⟩ := (Option.any_eq_true _ _).1 h
  have hkey : id ∈ m.keys := Dict.contains_iff_mem_keys.1 hid
  cases hentries : m.entries with
  | nil => simp [Dict.keys, hentries] at hkey
  | cons e rest => simp [isAmbiguous, hm, Dict.isEmpty, hentries]

/-- A call that the smaller bound decides keeps the same under the greater one. -/
theorem settled_of_le (hk : k ≤ k') (h : (c.settled i ⟨filter, k⟩).isAmbiguous = false) :
    c.settled i ⟨filter, k'⟩ = c.settled i ⟨filter, k⟩ := by
  rw [isAmbiguous_settled] at h
  rw [settled, settled, Index.resolve_of_le hk h]

end Call

/-! ## Two runs -/

/-- A call of a project under two options: the same call, with the outcome that each of them gives;
an outcome is changed only where the first gave up, and the second gives up only where the first
did. -/
structure Call.Raised (i : Index) (o o' : ResolveOptions) (c c' : Call) : Prop where
  raw_eq : c'.raw = c.raw
  keeps : c.mayBeSource = (i.resolve o c).mayBeSource
  keeps' : c'.mayBeSource = (i.resolve o' c').mayBeSource
  decided : (i.resolve o c).isAmbiguous = false →
    i.resolve o' c' = i.resolve o c ∧ c'.mayBeSource = c.mayBeSource
  ambiguous : (i.resolve o' c').isAmbiguous = true → (i.resolve o c).isAmbiguous = true

/-- A routine of a project under two options: call by call, and with callers that it keeps. -/
structure Routine.Raised (i : Index) (o o' : ResolveOptions) (r r' : Routine) : Prop where
  raw_eq : r'.raw = r.raw
  id_eq : r'.id = r.id
  calls : List.Forall₂ (Call.Raised i o o') r.calls r'.calls
  calledBy : r.calledBy.Sublist r'.calledBy

/-- A project resolved under two options: file by file and routine by routine, with the tally and
the edges that follow from it. -/
structure Resolved.Raised (i : Index) (o o' : ResolveOptions) (r r' : Resolved) : Prop where
  files : List.Forall₂
    (fun e e' => e'.1 = e.1 ∧ List.Forall₂ (Routine.Raised i o o') e.2.routines e'.2.routines)
    r.files.entries r'.files.entries
  builtin : r'.tally.builtin = r.tally.builtin
  dynamic : r'.tally.dynamic = r.tally.dynamic
  ambiguous : r'.tally.ambiguous ≤ r.tally.ambiguous
  resolved : r.tally.resolved ≤ r'.tally.resolved
  unresolved : r.tally.unresolved ≤ r'.tally.unresolved
  edgesBetween : ∀ a b, (r.graph.edgesBetween a b).Sublist (r'.graph.edgesBetween a b)

/-- A settled call under the two bounds. -/
lemma Call.raised_settled (hk : k ≤ k') (i : Index) (filter : Bool) (c : Call) :
    Raised i ⟨filter, k⟩ ⟨filter, k'⟩ (c.settled i ⟨filter, k⟩) (c.settled i ⟨filter, k'⟩) where
  raw_eq := rfl
  keeps := rfl
  keeps' := rfl
  decided h := by
    have hsame : i.resolve ⟨filter, k'⟩ c = i.resolve ⟨filter, k⟩ c := Index.resolve_of_le hk h
    exact ⟨hsame, congrArg Outcome.mayBeSource hsame⟩
  ambiguous h := by
    by_contra hdecided
    rw [Bool.not_eq_true] at hdecided
    have hsame : i.resolve ⟨filter, k'⟩ c = i.resolve ⟨filter, k⟩ c :=
      Index.resolve_of_le hk hdecided
    have hambiguous : (i.resolve ⟨filter, k⟩ c).isAmbiguous = true := hsame ▸ h
    exact Bool.false_ne_true (hdecided.symm.trans hambiguous)

/-! ## The tally -/

/-- Counting more calls of some sort under the greater bound. -/
lemma countP_settled_le (hk : k ≤ k') (i : Index) (filter : Bool) {p : Call → Bool}
    (hp : ∀ c : Call, p c = true → c.isAmbiguous = false) (calls : List Call) :
    (calls.map (Call.settled i ⟨filter, k⟩)).countP p ≤
      (calls.map (Call.settled i ⟨filter, k'⟩)).countP p := by
  rw [List.countP_map, List.countP_map]
  refine List.countP_mono_left fun c _ hc => ?_
  rwa [Function.comp_apply, Call.settled_of_le hk (hp _ hc)]

/-- Under a larger cap no more calls are ambiguous. -/
lemma countP_isAmbiguous_settled_le (hk : k ≤ k') (i : Index) (filter : Bool) (calls : List Call) :
    (calls.map (Call.settled i ⟨filter, k'⟩)).countP Call.isAmbiguous ≤
      (calls.map (Call.settled i ⟨filter, k⟩)).countP Call.isAmbiguous := by
  rw [List.countP_map, List.countP_map]
  refine List.countP_mono_left fun c _ hc => ?_
  rw [Function.comp_apply, Call.isAmbiguous_settled] at hc ⊢
  exact (Call.raised_settled hk i filter c).ambiguous hc

/-- The sort of a call does not depend on its outcome. -/
lemma countP_kind_settled (i : Index) (o : ResolveOptions) (kind : CallKind) (calls : List Call) :
    (calls.map (Call.settled i o)).countP (fun c => c.kind = kind) =
      calls.countP fun c => c.kind = kind :=
  List.countP_map

/-! ## Edges and callers -/

namespace ProjectFacts

/-- Resolution settles the calls of each routine and changes nothing else of it. -/
lemma routines_resolveCalls (files : ProjectFacts) (i : Index) (o : ResolveOptions) :
    (files.resolveCalls i o).routines =
      files.routines.map fun r => { r with calls := r.calls.map (Call.settled i o) } := by
  simp only [routines, resolveCalls, Dict.values, Dict.entries_map, List.map_map, List.flatMap_map,
    List.map_flatMap, Function.comp_apply, FileFacts.routines_mapRoutines]
  rfl

/-- The calls of an identifier are settled in place. -/
lemma callsOf_resolveCalls (files : ProjectFacts) (i : Index) (o : ResolveOptions) (a : String) :
    (files.resolveCalls i o).callsOf a = (files.callsOf a).map (Call.settled i o) := by
  rw [callsOf, routines_resolveCalls, List.filter_map, List.flatMap_map, callsOf, List.map_flatMap]
  rfl

/-- A call that lists an identifier under the smaller bound lists it under the greater one. -/
lemma edgesBetween_sublist (hk : k ≤ k') (files : ProjectFacts) (i : Index) (filter : Bool)
    (a b : String) :
    ((CallGraph.ofProject (files.resolveCalls i ⟨filter, k⟩)).edgesBetween a b).Sublist
      ((CallGraph.ofProject (files.resolveCalls i ⟨filter, k'⟩)).edgesBetween a b) := by
  have hedges (o : ResolveOptions) :
      (CallGraph.ofProject (files.resolveCalls i o)).edgesBetween a b =
        (((files.callsOf a).filter fun c => (c.settled i o).lists b).map fun c =>
          c.edge a b).reverse := by
    rw [CallGraph.edgesBetween_ofProject, callsOf_resolveCalls, List.filter_map, List.map_map]
    rfl
  rw [hedges, hedges]
  refine ((List.monotone_filter_right _ fun c hc => ?_).map _).reverse
  rwa [Call.settled_of_le hk (Call.isAmbiguous_eq_false_of_lists hc)]

end ProjectFacts

/-- Of two ascending lists, the one with fewer elements is part of the other. -/
lemma sublist_of_subset_of_ascending {l l' : List String} (hl : l.Pairwise (· < ·))
    (hl' : l'.Pairwise (· < ·)) (h : l ⊆ l') : l.Sublist l' := by
  have hirrefl : ∀ {a b : String}, a < b → a ≠ b := by
    rintro a b hab rfl
    exact String.lt_irrefl _ hab
  have hsubperm : l.Subperm l' := List.subperm_of_subset (hl.imp hirrefl) h
  obtain ⟨m, hperm, hsub⟩ := hsubperm
  have hm : m = l := by
    refine hperm.eq_of_pairwise (fun a b _ _ hab hba => ?_) (hl'.sublist hsub) hl
    exact absurd (String.lt_trans hab hba) (String.lt_irrefl _)
  rwa [← hm]

/-- Where there are more edges between identifiers, there are more callers. -/
lemma CallGraph.callers_sublist {g g' : CallGraph}
    (h : ∀ a b, (g.edgesBetween a b).Sublist (g'.edgesBetween a b)) (id : String) :
    (g.callers id).Sublist (g'.callers id) := by
  refine sublist_of_subset_of_ascending (ascending_sortedOnce _)
    (ascending_sortedOnce _) fun a ha => ?_
  obtain ⟨e, he, hcaller, hcallee⟩ := mem_callers_iff.1 ha
  have hbetween : e ∈ g.edgesBetween a id := List.mem_filter.2 ⟨he, by simp [hcaller, hcallee]⟩
  obtain ⟨he', -⟩ := List.mem_filter.1 ((h a id).subset hbetween)
  exact mem_callers_iff.2 ⟨e, he', hcaller, hcallee⟩

/-! ## The two runs compared -/

/-- **Raising the bound on candidates only decides ambiguous calls.** A project is resolved under
two bounds, with the same import filter. File by file and call by call, a call that the smaller
bound decides has the same outcome and the same candidates under the greater one, and a call that is
ambiguous under the greater bound is so under the smaller one. As many calls are of callees that PHP
provides and as many name no callee; no more calls are ambiguous, and no fewer are resolved or
unresolved. Between any two identifiers the edges under the smaller bound are some of those under
the greater one, in their order, and so are the callers of every routine. -/
theorem raised_resolve (files : ProjectFacts) (filter : Bool) {k k' : Nat} (hk : k ≤ k') :
    Resolved.Raised (Index.ofProject files.stamp) ⟨filter, k⟩ ⟨filter, k'⟩
      (files.resolve ⟨filter, k⟩) (files.resolve ⟨filter, k'⟩) := by
  have hedges : ∀ a b, ((files.resolve ⟨filter, k⟩).graph.edgesBetween a b).Sublist
      ((files.resolve ⟨filter, k'⟩).graph.edgesBetween a b) :=
    files.stamp.edgesBetween_sublist hk _ filter
  have htally (o : ResolveOptions) : (files.resolve o).tally =
      Tally.ofCalls (files.stamp.calls.map (Call.settled (Index.ofProject files.stamp) o)) :=
    files.stamp.tally_eq_ofCalls _ o
  refine
    { files := ?files
      builtin := ?builtin
      dynamic := ?dynamic
      ambiguous := ?ambiguous
      resolved := ?resolved
      unresolved := ?unresolved
      edgesBetween := hedges }
  case files =>
    -- both runs settle the routines of the stamped project in place
    rw [ProjectFacts.files_resolve, ProjectFacts.files_resolve, Dict.entries_map, Dict.entries_map,
      List.forall₂_map_left_iff, List.forall₂_map_right_iff, List.forall₂_same]
    refine fun e _ => ⟨rfl, ?_⟩
    rw [FileFacts.routines_mapRoutines, FileFacts.routines_mapRoutines, List.forall₂_map_left_iff,
      List.forall₂_map_right_iff, List.forall₂_same]
    refine fun r _ => ⟨?_, rfl, ?_, CallGraph.callers_sublist hedges r.id⟩
    · simp only [Routine.settled, Routine.raw, Routine.unlinked, List.map_map]
      rfl
    · rw [Routine.settled, Routine.settled, List.forall₂_map_left_iff, List.forall₂_map_right_iff,
        List.forall₂_same]
      exact fun c _ => Call.raised_settled hk _ filter c
  case builtin | dynamic =>
    rw [htally, htally]
    exact (countP_kind_settled _ _ _ _).trans (countP_kind_settled _ _ _ _).symm
  case ambiguous =>
    rw [htally, htally]
    exact countP_isAmbiguous_settled_le hk _ filter _
  case resolved =>
    rw [htally, htally]
    exact countP_settled_le hk _ filter (fun _ => Call.isAmbiguous_eq_false_of_isResolved) _
  case unresolved =>
    rw [htally, htally]
    exact countP_settled_le hk _ filter (fun _ => Call.isAmbiguous_eq_false_of_isUnresolved) _

open ProjectFacts in
/-- Two candidates are one too many for the smaller bound, and are believed by the greater one. -/
theorem raised_resolve_fates :
    (fates.resolve ⟨false, 1⟩).tally = ⟨1, 1, 1, 1, 1⟩ ∧
    (fates.resolve ⟨false, 2⟩).tally = ⟨2, 1, 0, 1, 1⟩ ∧
    Resolved.Raised (Index.ofProject fates.stamp) ⟨false, 1⟩ ⟨false, 2⟩
      (fates.resolve ⟨false, 1⟩) (fates.resolve ⟨false, 2⟩) := by
  have htallies : (fates.resolve ⟨false, 1⟩).tally = ⟨1, 1, 1, 1, 1⟩ ∧
      (fates.resolve ⟨false, 2⟩).tally = ⟨2, 1, 0, 1, 1⟩ := by decide +kernel
  exact ⟨htallies.1, htallies.2, raised_resolve fates false (by decide)⟩

end PhpCalls
