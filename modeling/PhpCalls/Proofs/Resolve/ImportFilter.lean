import PhpCalls.Proofs.Resolve.Order
import PhpCalls.Proofs.Resolve.Soundness
import PhpCalls.Proofs.Text

set_option autoImplicit false

/-!
# What the import filter does to outcomes

The import filter keeps the candidates that the hints of a call speak for. It stands before the
bound on the number of candidates, so it can make an ambiguous call resolved or unresolved, and it
keeps the first of several candidates with one identifier, which the arguments of the call may not
fit although they fit a later one. Nevertheless it only narrows: it finds nothing new, and nothing
becomes ambiguous by it.

## Main definitions

* `Call.SpeaksFor`: a hint of a call speaks for a candidate.
* `Outcome.Narrows`: an outcome says no more than another one.

## Main results

* `Call.mem_map_id_filterByImports`, `Call.nodup_map_id_filterByImports`: what the filter keeps.
* `Call.select_eq_unresolved_iff`, `Call.select_eq_ambiguous_iff`, `Call.select_eq_resolved_iff`:
  the three outcomes of a look-up.
* `resolve_importFilter_narrows`: the outcomes of a call without and with the filter.
-/

namespace PhpCalls

/-! ## What the filter keeps -/

/-- A hint of the call speaks for the candidate: the candidate's namespace holds a namespace that is
used, or its file holds the path of a file that is included. -/
inductive Call.SpeaksFor (c : Call) (k : Candidate) : Prop where
  | byNamespace (written space : String) (used : written ∈ c.mayNamespaces)
      (nonempty : Text.slashed written ≠ "") (lies : k.inNamespace = some space)
      (holds : (Text.slashed written).toList <:+: (Text.slashed space).toList)
  | byFile (written path : String) (included : written ∈ c.mayFiles)
      (hint : importHint? written = some path) (holds : path.toList <:+: k.file.toList)

namespace Call

variable {o : ResolveOptions} {c : Call} {cs : List Candidate}

/-- The tests of a call are its hints. -/
lemma speaksFor_iff {k : Candidate} : c.SpeaksFor k ↔ ∃ test ∈ c.hintTests, test k = true := by
  constructor
  · rintro (⟨written, space, hused, hne, hlies, hholds⟩ | ⟨written, path, hincluded, hhint, hholds⟩)
    · refine ⟨inHintedNamespace (Text.slashed written), List.mem_append_left _ ?_, ?_⟩
      · refine List.mem_map_of_mem (List.mem_filter.2 ⟨List.mem_map_of_mem hused, ?_⟩)
        exact decide_eq_true hne
      · rw [inHintedNamespace, hlies, Option.any_some]
        exact Text.contains_iff.2 hholds
    · refine ⟨fun k => Text.contains k.file path, List.mem_append_right _ ?_, ?_⟩
      · exact List.mem_map.2 ⟨path, List.mem_filterMap.2 ⟨written, hincluded, hhint⟩, rfl⟩
      · exact Text.contains_iff.2 hholds
  · rintro ⟨test, htest, hk⟩
    rcases List.mem_append.1 htest with htest | htest
    · obtain ⟨hint, hhint, rfl⟩ := List.mem_map.1 htest
      obtain ⟨hhint, hne⟩ := List.mem_filter.1 hhint
      obtain ⟨written, hused, rfl⟩ := List.mem_map.1 hhint
      obtain ⟨space, hlies, hholds⟩ := (Option.any_eq_true _ _).1 hk
      exact .byNamespace written space hused (of_decide_eq_true hne) hlies
        (Text.contains_iff.1 hholds)
    · obtain ⟨path, hpath, rfl⟩ := List.mem_map.1 htest
      obtain ⟨written, hincluded, hhint⟩ := List.mem_filterMap.1 hpath
      exact .byFile written path hincluded hhint (Text.contains_iff.1 hk)

/-- The filter keeps the identifiers of the candidates that hints speak for. -/
theorem mem_map_id_filterByImports {id : String} :
    id ∈ (c.filterByImports cs).map Candidate.id ↔ ∃ k ∈ cs, k.id = id ∧ c.SpeaksFor k := by
  rw [filterByImports, keepByTests, mem_map_eraseDupsBy Candidate.id]
  simp only [List.mem_map, List.mem_flatMap, List.mem_filter, speaksFor_iff]
  constructor
  · rintro ⟨k, ⟨test, htest, hk, hpass⟩, hid⟩
    exact ⟨k, hk, hid, test, htest, hpass⟩
  · rintro ⟨k, hk, hid, test, htest, hpass⟩
    exact ⟨k, ⟨test, htest, hk, hpass⟩, hid⟩

/-- The filter keeps no identifier twice. -/
theorem nodup_map_id_filterByImports : ((c.filterByImports cs).map Candidate.id).Nodup :=
  nodup_map_eraseDupsBy Candidate.id _

/-- The filter keeps no more candidates than there are, though one that several hints speak for is
met several times. -/
lemma length_filterByImports_le : (c.filterByImports cs).length ≤ cs.length := by
  have hsubset : (c.filterByImports cs).map Candidate.id ⊆ cs.map Candidate.id := by
    intro id hid
    obtain ⟨k, hk, rfl, -⟩ := mem_map_id_filterByImports.1 hid
    exact List.mem_map_of_mem hk
  have hlength := (List.subperm_of_subset nodup_map_id_filterByImports hsubset).length_le
  rwa [List.length_map, List.length_map] at hlength

/-! ## The three outcomes of a look-up -/

/-- A choice is ambiguous exactly if more candidates than allowed are left, and it says how many. -/
lemma select_eq_ambiguous_iff {n : Nat} :
    c.select o cs = .ambiguous n ↔ o.ambiguityCap < (c.narrow o cs).length ∧
      n = (c.narrow o cs).length := by
  simp only [select_eq]
  split
  case isTrue hcap => simp [hcap, eq_comm]
  case isFalse hcap =>
    split
    · simp [hcap]
    · simp [hcap]

/-- A choice finds nothing exactly if no more candidates than allowed are left and none of them can
be reached. -/
lemma select_eq_unresolved_iff :
    c.select o cs = .unresolved ↔ (c.narrow o cs).length ≤ o.ambiguityCap ∧
      ∀ k ∈ c.narrow o cs, c.mayReach k = false := by
  simp only [select_eq]
  split
  case isTrue hcap => simp [hcap]
  case isFalse hcap =>
    rw [Nat.not_lt] at hcap
    split
    case isTrue hleft => simpa [hcap, List.filter_eq_nil_iff] using hleft
    case isFalse hleft => simpa [hcap, List.filter_eq_nil_iff] using hleft

/-- A choice finds candidates exactly if no more than allowed are left and some can be reached;
those are the ones it finds. -/
lemma select_eq_resolved_iff {m : Dict String} :
    c.select o cs = .resolved m ↔ (c.narrow o cs).length ≤ o.ambiguityCap ∧
      (∃ k ∈ c.narrow o cs, c.mayReach k = true) ∧
      m = .ofList (((c.narrow o cs).filter c.mayReach).map fun k => (k.id, k.file)) := by
  simp only [select_eq]
  split
  case isTrue hcap => simp [hcap]
  case isFalse hcap =>
    rw [Nat.not_lt] at hcap
    split
    case isTrue hleft =>
      rw [List.isEmpty_iff, List.filter_eq_nil_iff] at hleft
      simpa [hcap] using fun k hk hreach _ => absurd hreach (hleft k hk)
    case isFalse hleft =>
      rw [List.isEmpty_iff, List.filter_eq_nil_iff] at hleft
      have hsome : ∃ k ∈ c.narrow o cs, c.mayReach k = true := by simpa using hleft
      rw [Outcome.resolved.injEq]
      exact ⟨fun h => ⟨hcap, hsome, h.symm⟩, fun h => h.2.2.symm⟩

end Call

/-! ## The filter on and off -/

/-- The outcome `after` says no more than the outcome `before`: nothing is found where nothing was
found, of what was found some is found or nothing, and there are too many candidates only where
there were too many, and at least as many. -/
structure Outcome.Narrows (before after : Outcome) : Prop where
  unresolved : before = .unresolved → after = .unresolved
  resolved : ∀ m, before = .resolved m →
    after = .unresolved ∨ ∃ m', after = .resolved m' ∧ m'.keys ⊆ m.keys
  ambiguous : ∀ n, after = .ambiguous n → ∃ m, before = .ambiguous m ∧ n ≤ m

/-- An outcome narrows itself. -/
lemma Outcome.Narrows.refl (x : Outcome) : x.Narrows x where
  unresolved := id
  resolved m h := .inr ⟨m, h, List.Subset.refl _⟩
  ambiguous n h := ⟨n, h, le_rfl⟩

namespace Call

variable {c : Call} {cap : Nat} {cs : List Candidate}

/-- Only a call that is not native and has hints sees the filter. -/
lemma narrow_importFilter_eq (h : c.isNative = true ∨ c.mayFiles = [] ∧ c.mayNamespaces = []) :
    c.narrow ⟨true, cap⟩ cs = c.narrow ⟨false, cap⟩ cs := by
  rcases h with h | ⟨hfiles, hspaces⟩
  · simp [narrow, h]
  · simp [narrow, hasImportHints, hfiles, hspaces]

/-- What is left with the filter is left without it, and no more of it. -/
lemma narrow_importFilter_subset (c : Call) (cap : Nat) (cs : List Candidate) :
    c.narrow ⟨true, cap⟩ cs ⊆ c.narrow ⟨false, cap⟩ cs ∧
      (c.narrow ⟨true, cap⟩ cs).length ≤ (c.narrow ⟨false, cap⟩ cs).length := by
  by_cases hsame : c.isNative = true ∨ c.mayFiles = [] ∧ c.mayNamespaces = []
  · rw [narrow_importFilter_eq hsame]
    exact ⟨List.Subset.refl _, le_rfl⟩
  · rw [not_or, not_and_or] at hsame
    have hhints : c.hasImportHints = true := by simpa [hasImportHints] using hsame.2
    have hon : c.narrow ⟨true, cap⟩ cs = c.filterByImports cs := by simp [narrow, hsame.1, hhints]
    have hoff : c.narrow ⟨false, cap⟩ cs = cs := by simp [narrow, hsame.1]
    rw [hon, hoff]
    exact ⟨fun k hk => mem_of_mem_keepByTests hk, length_filterByImports_le⟩

/-- The outcome of a look-up with the filter says no more than without it. -/
lemma narrows_select (c : Call) (cap : Nat) (cs : List Candidate) :
    (c.select ⟨false, cap⟩ cs).Narrows (c.select ⟨true, cap⟩ cs) := by
  obtain ⟨hsubset, hlength⟩ := c.narrow_importFilter_subset cap cs
  constructor
  case unresolved =>
    intro hoff
    obtain ⟨hcap, hnone⟩ := select_eq_unresolved_iff.1 hoff
    exact select_eq_unresolved_iff.2 ⟨hlength.trans hcap, fun k hk => hnone k (hsubset hk)⟩
  case resolved =>
    intro m hoff
    obtain ⟨hcap, -, rfl⟩ := select_eq_resolved_iff.1 hoff
    by_cases hsome : ∃ k ∈ c.narrow ⟨true, cap⟩ cs, c.mayReach k = true
    · refine .inr ⟨_, select_eq_resolved_iff.2 ⟨hlength.trans hcap, hsome, rfl⟩, fun id hid => ?_⟩
      rw [Dict.mem_keys_ofList, List.map_map] at hid ⊢
      obtain ⟨k, hk, rfl⟩ := List.mem_map.1 hid
      obtain ⟨hk, hreach⟩ := List.mem_filter.1 hk
      exact List.mem_map_of_mem (List.mem_filter.2 ⟨hsubset hk, hreach⟩)
    · refine .inl (select_eq_unresolved_iff.2 ⟨hlength.trans hcap, fun k hk => ?_⟩)
      exact Bool.eq_false_iff.2 fun hreach => hsome ⟨k, hk, hreach⟩
  case ambiguous =>
    intro n hon
    obtain ⟨hcap, rfl⟩ := select_eq_ambiguous_iff.1 hon
    exact ⟨_, select_eq_ambiguous_iff.2 ⟨hcap.trans_le hlength, rfl⟩, hlength⟩

end Call

/-- **The import filter only narrows.** For every index, call and bound, compare the outcomes
without and with the filter. They are the same for a call of a callee that PHP provides, for one
that names no callee, for a native call and for a call without hints. In all cases the outcome with
the filter says no more than the one without it. What the filter keeps of any candidates has no
identifier twice, and has the identifiers of exactly those candidates that a hint speaks for. -/
theorem resolve_importFilter_narrows (i : Index) (c : Call) (cap : Nat) :
    ((c.kind = .builtin ∨ c.kind = .dynamic ∨ c.isNative = true ∨
        (c.mayFiles = [] ∧ c.mayNamespaces = [])) →
      i.resolve ⟨true, cap⟩ c = i.resolve ⟨false, cap⟩ c) ∧
    (i.resolve ⟨false, cap⟩ c).Narrows (i.resolve ⟨true, cap⟩ c) ∧
    ∀ cs : List Candidate, ((c.filterByImports cs).map Candidate.id).Nodup ∧
      ∀ id, id ∈ (c.filterByImports cs).map Candidate.id ↔ ∃ k ∈ cs, k.id = id ∧ c.SpeaksFor k := by
  refine ⟨fun hsame => ?_, ?_, fun cs => ⟨Call.nodup_map_id_filterByImports, fun id => ?_⟩⟩
  · cases hk : c.kind with
    | builtin | dynamic => simp only [Index.resolve, hk]
    | general | construct | magic | classMethod =>
      have hnear : c.isNative = true ∨ c.mayFiles = [] ∧ c.mayNamespaces = [] := by
        simpa [hk] using hsame
      simp only [Index.resolve, hk, Call.select_eq, Call.narrow_importFilter_eq hnear]
  · cases hk : c.kind with
    | builtin | dynamic =>
      simp only [Index.resolve, hk]
      exact .refl _
    | general | construct | magic | classMethod =>
      simp only [Index.resolve, hk]
      exact c.narrows_select cap _
  · exact Call.mem_map_id_filterByImports

/-- A file with a class in a hinted namespace, whose method takes one argument and has the
identifier of a method in another file. -/
def FileFacts.sharing : FileFacts :=
  { classes := [(ClassDecl.waiting "k4" "Porter" "Hall" [("m1", "serve")]).mapMethods fun m =>
      { m with parameters := [{ index := 0 }] }] }

/-- A call with some arguments that uses one namespace. -/
def Call.serveInHall (arguments : List Param) : Call :=
  { Call.serve with arguments, mayNamespaces := ["Hall"] }

open FileFacts in
/-- Of four candidates, two with one identifier, two are left by the hint. So a call without
arguments is no longer ambiguous, and a call with an argument loses the one candidate that takes
it. -/
theorem resolve_importFilter_narrows_serveInHall :
    let i := Index.ofFiles [waiting false, helping, sharing]
    let call := Call.serveInHall []
    let callWith := Call.serveInHall [{ index := 0 }]
    (i.resolve ⟨false, 2⟩ call).mayBeSource = some .empty ∧
    (i.resolve ⟨true, 2⟩ call).mayBeSource = some (.ofList [("m1", "a.php"), ("m4", "a.php")]) ∧
    (i.resolve ⟨false, 2⟩ call).Narrows (i.resolve ⟨true, 2⟩ call) ∧
    (i.resolve ⟨false, 4⟩ callWith).mayBeSource = some (.ofList [("m1", "a.php")]) ∧
    (i.resolve ⟨true, 4⟩ callWith).mayBeSource = none ∧
    (i.resolve ⟨false, 4⟩ callWith).Narrows (i.resolve ⟨true, 4⟩ callWith) ∧
    i.resolve ⟨true, 2⟩ { call with mayNamespaces := [] } =
      i.resolve ⟨false, 2⟩ { call with mayNamespaces := [] } := by
  intro i call callWith
  obtain ⟨hoff, hon, hoffWith, honWith⟩ :
      (i.resolve ⟨false, 2⟩ call).mayBeSource = some .empty ∧
      (i.resolve ⟨true, 2⟩ call).mayBeSource = some (.ofList [("m1", "a.php"), ("m4", "a.php")]) ∧
      (i.resolve ⟨false, 4⟩ callWith).mayBeSource = some (.ofList [("m1", "a.php")]) ∧
      (i.resolve ⟨true, 4⟩ callWith).mayBeSource = none := by decide +kernel
  exact ⟨hoff, hon, (resolve_importFilter_narrows i call 2).2.1, hoffWith, honWith,
    (resolve_importFilter_narrows i callWith 4).2.1,
    (resolve_importFilter_narrows i { call with mayNamespaces := [] } 2).1
      (.inr (.inr (.inr ⟨rfl, rfl⟩)))⟩

end PhpCalls
