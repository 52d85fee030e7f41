import PhpCalls.Proofs.Resolve.Project

set_option autoImplicit false

/-!
# Candidates stand for declarations

A resolved project names the candidates of a call by identifier and file only. Whatever the input
holds, two declarations with one identifier included, each of these names leads back to a record of
the resolved project that the call may mean.

## Main definitions

* `ProjectFacts.Declares`: a record is a function or a method of a project.
* `ProjectFacts.Backs`: records of a project stand behind a candidate of a call.
* `Candidate.IsFrom`: a candidate was made from a record of a project.

## Main results

* `Index.isFrom_of_mem_candidates`: the look-up finds records of the indexed project only.
* `Call.exists_candidate_of_select`: a candidate that is written into a call passed all tests.
* `mayBeSource_resolve_backed`: the candidates of the calls of a resolved project are backed.
-/

namespace PhpCalls

/-! ## What stands behind a candidate -/

/-- The record is a function of the project, the file level left out, or a method of one of its
classes. -/
def ProjectFacts.Declares (files : ProjectFacts) (d : Routine) : Prop :=
  d ∈ files.functions ∨ ∃ k ∈ files.classes, d ∈ k.methods

/-- Records of the project stand behind the candidate with the given identifier and file. -/
inductive ProjectFacts.Backs (files : ProjectFacts) (c : Call) (id file : String) : Prop where
  /-- A function or method takes the arguments, and the call may see it. -/
  | routine (d : Routine) (declared : files.Declares d) (id_eq : d.id = id)
    (file_eq : d.file = file)
      (fits : c.arguments.length ≤ d.parameters.length)
      (visible : c.kind.isClassBound = true → c.isNative = false → d.visibility ≠ .owner)
  /-- An object is made of a class that has no constructor. -/
  | classAlone (k : ClassDecl) (declared : k ∈ files.classes) (id_eq : k.id = id)
      (file_eq : k.file = file) (creates : c.kind = .construct)
      (bare : ∀ m ∈ k.methods, Builtin.isConstructor m.name = false)

/-- The candidate was made from a record of the project. -/
inductive Candidate.IsFrom (files : ProjectFacts) (c : Call) : Candidate → Prop where
  | declared (d : Routine) (h : files.Declares d) : IsFrom files c (.declared d.summary)
  | implicitConstructor (k : ClassDecl) (h : k ∈ files.classes) (creates : c.kind = .construct)
      (bare : ∀ m ∈ k.methods, Builtin.isConstructor m.name = false) :
      IsFrom files c (.implicitConstructor k.summary)

/-! ## The look-up -/

/-- The candidates in a class of the project are made from records of the project. -/
lemma ClassDecl.isFrom_of_mem_candidates {files : ProjectFacts} {c : Call} {k : ClassDecl}
    (hk : k ∈ files.classes) {x : Candidate} (hx : x ∈ k.summary.candidates c) :
    x.IsFrom files c := by
  unfold ClassDecl.candidates at hx
  split at hx
  case isTrue h =>
    simp only [Bool.and_eq_true, decide_eq_true_eq, Bool.not_eq_true', hasConstructor, summary,
      List.any_map] at h
    obtain ⟨hkind, hbare⟩ := h
    obtain rfl := List.mem_singleton.1 hx
    refine .implicitConstructor k hk hkind fun m hm => ?_
    simpa [Routine.summary] using List.any_eq_false.1 hbare m hm
  case isFalse h =>
    obtain ⟨r, hr, rfl⟩ := List.mem_map.1 hx
    obtain ⟨d, hd, rfl⟩ := List.mem_map.1 (List.mem_of_mem_filter hr)
    exact .declared d (.inr ⟨k, hk, hd⟩)

/-- The look-up finds records of the indexed project only, whatever identifiers it holds. -/
theorem Index.isFrom_of_mem_candidates {files : ProjectFacts} {c : Call} {x : Candidate}
    (hx : x ∈ (Index.ofProject files).candidates c) : x.IsFrom files c := by
  unfold candidates at hx
  split at hx
  case isTrue =>
    obtain ⟨k, hk, hx⟩ := List.mem_flatMap.1 hx
    obtain ⟨id, -, hid⟩ := List.mem_filterMap.1 hk
    obtain ⟨l, hl, rfl⟩ := mem_classes_of_class? hid
    exact ClassDecl.isFrom_of_mem_candidates hl hx
  case isFalse =>
    obtain ⟨r, hr, rfl⟩ := List.mem_map.1 hx
    obtain ⟨id, -, hid⟩ := List.mem_filterMap.1 hr
    obtain ⟨d, hd, rfl⟩ := mem_functions_of_function? hid
    exact .declared d (.inl hd)

/-! ## The tests -/

namespace Call

/-- Keeping candidates by tests adds none. -/
lemma mem_of_mem_keepByTests {tests : List (Candidate → Bool)} {cs : List Candidate} {x : Candidate}
    (hx : x ∈ keepByTests tests cs) : x ∈ cs := by
  obtain ⟨t, -, ht⟩ := List.mem_flatMap.1 (mem_of_mem_eraseDupsBy hx)
  exact List.mem_of_mem_filter ht

/-- What is left by where a call stands was found, and for a callee of the call's own file lies in
that file. -/
lemma mem_of_mem_narrow {o : ResolveOptions} {c : Call} {cs : List Candidate} {x : Candidate}
    (hx : x ∈ c.narrow o cs) : x ∈ cs ∧ (c.isNative = true → c.file = some x.file) := by
  unfold narrow at hx
  split at hx
  case isTrue hn =>
    obtain ⟨hx, hfile⟩ := List.mem_filter.1 hx
    exact ⟨hx, fun _ => by simpa using hfile⟩
  case isFalse hn =>
    refine ⟨?_, fun h => absurd h hn⟩
    split at hx
    · exact mem_of_mem_keepByTests hx
    · exact hx

/-- The candidates that are written into a call are not more than the bound, and each of them was
found and passed all tests. -/
theorem exists_candidate_of_select {o : ResolveOptions} {c : Call} {cs : List Candidate}
    {m : Dict String} (hm : (c.select o cs).mayBeSource = some m) :
    m.size ≤ o.ambiguityCap ∧ ∀ id file, m.get? id = some file →
      ∃ x ∈ cs, x.id = id ∧ x.file = file ∧
      c.mayReach x = true ∧ (c.isNative = true → c.file = some file) := by
  simp only [select_eq] at hm
  split at hm
  case isTrue =>
    -- too many candidates are written as none
    obtain rfl : Dict.empty = m := by simpa [Outcome.mayBeSource] using hm
    exact ⟨Nat.zero_le _, fun id file h => by simp at h⟩
  case isFalse hcap =>
    split at hm
    case isTrue => cases hm
    case isFalse =>
      simp only [Outcome.mayBeSource, Option.some.injEq] at hm
      subst hm
      have hlen : ((c.narrow o cs).filter c.mayReach).length ≤ (c.narrow o cs).length :=
        List.length_filter_le _ _
      refine ⟨?_, fun id file h => ?_⟩
      · have hsize := Dict.size_ofList_le
          (((c.narrow o cs).filter c.mayReach).map fun k => (k.id, k.file))
        rw [List.length_map] at hsize
        omega
      · obtain ⟨x, hx, heq⟩ := List.mem_map.1 (Dict.mem_of_get?_ofList h)
        obtain ⟨rfl, rfl⟩ := Prod.mk.inj heq
        obtain ⟨hx, hreach⟩ := List.mem_filter.1 hx
        obtain ⟨hx, hfile⟩ := mem_of_mem_narrow hx
        exact ⟨x, hx, rfl, rfl, hreach, hfile⟩

end Call

/-- A candidate from the project that the call may reach is backed by the project. -/
lemma Candidate.IsFrom.backs {files : ProjectFacts} {c : Call} {x : Candidate}
    (h : x.IsFrom files c) (hreach : c.mayReach x = true) : files.Backs c x.id x.file := by
  cases h with
  | declared d h =>
    simp only [Call.mayReach, accepts, isPrivate, Routine.summary, Bool.and_eq_true,
      Bool.not_eq_true', Bool.and_eq_false_imp] at hreach
    obtain ⟨hfits, hvisible⟩ := hreach
    refine .routine d h rfl rfl (of_decide_eq_true hfits) fun hkind hnative => ?_
    exact of_decide_eq_false (hvisible ⟨hkind, hnative⟩)
  | implicitConstructor k h creates bare => exact .classAlone k h rfl rfl creates bare

/-! ## The resolved project -/

/-- Settling the routines of a project keeps its declarations, but for what they call and who calls
them. -/
lemma ProjectFacts.Declares.settled {files : ProjectFacts} (o : ResolveOptions) {d : Routine}
    (h : files.stamp.Declares d) : (files.resolve o).files.Declares
      (d.settled (Index.ofProject files.stamp) o (files.resolve o).graph) := by
  rcases h with h | ⟨k, hk, hd⟩
  · refine .inl ?_
    rw [functions_resolve]
    exact List.mem_map_of_mem h
  · refine .inr ⟨k.mapMethods (Routine.settled (Index.ofProject files.stamp) o
      (files.resolve o).graph), ?_, ?_⟩
    · rw [classes_resolve]
      exact List.mem_map_of_mem hk
    · exact List.mem_map_of_mem hd

/-- What the stamped project backs, the resolved project backs. -/
lemma ProjectFacts.Backs.resolve {files : ProjectFacts} (o : ResolveOptions) {c : Call}
    {id file : String} (h : files.stamp.Backs c id file) :
    (files.resolve o).files.Backs (c.settled (Index.ofProject files.stamp) o) id file := by
  cases h with
  | routine d declared id_eq file_eq fits visible =>
    exact .routine _ (declared.settled o) id_eq file_eq fits visible
  | classAlone k declared id_eq file_eq creates bare =>
    refine .classAlone (k.mapMethods (Routine.settled (Index.ofProject files.stamp) o
      (files.resolve o).graph)) ?_ id_eq file_eq creates ?_
    · rw [classes_resolve]
      exact List.mem_map_of_mem declared
    · intro m hm
      obtain ⟨m₀, hm₀, rfl⟩ := List.mem_map.1 hm
      exact bare m₀ hm₀

/-- A call whose outcome names candidates is of a kind that is looked up, and the outcome is that of
the candidates found. -/
lemma Index.isResolvable_of_resolve {i : Index} {o : ResolveOptions} {c : Call} {m : Dict String}
    (hm : (i.resolve o c).mayBeSource = some m) :
    c.kind.isResolvable = true ∧ (c.select o (i.candidates c)).mayBeSource = some m := by
  unfold Index.resolve at hm
  cases hk : c.kind with
  | builtin | dynamic =>
    rw [hk] at hm
    cases hm
  | general | construct | magic | classMethod =>
    rw [hk] at hm
    exact ⟨rfl, hm⟩

/-- **The candidates of a resolved project are backed.** Whatever facts go in, and whatever their
identifiers, a call that is left with candidates in the file at `p` has at most as many as the bound
allows and is of a kind that is looked up. Each of its candidates is backed by a record of the
result, and lies in the file at `p` if the callee is declared there.

**Proof sketch.** The call is a call of the input, stamped and settled. Its candidates passed the
tests of `Call.exists_candidate_of_select` and are records of the stamped project, though an
identifier may have led to another record than the one that was registered under it. These records
stand in the result with their calls and callers replaced only. -/
theorem mayBeSource_resolve_backed (files : ProjectFacts) (o : ResolveOptions) {p : String}
    {f : FileFacts} (hf : (files.resolve o).files.get? p = some f) {r : Routine}
    (hr : r ∈ f.routines) {c : Call} (hc : c ∈ r.calls) {m : Dict String}
    (hm : c.mayBeSource = some m) :
    m.size ≤ o.ambiguityCap ∧ ∀ id file, m.get? id = some file →
      c.kind ≠ .builtin ∧ c.kind ≠ .dynamic ∧ (files.resolve o).files.Backs c id file ∧
      (c.isNative = true → file = Text.slashed p) := by
  obtain ⟨raw, -, hcalls⟩ := ProjectFacts.calls_of_get?_resolve hf
  have hc' : c ∈ f.calls := List.mem_flatMap.2 ⟨r, hr, hc⟩
  rw [hcalls] at hc'
  obtain ⟨c₀, -, rfl⟩ := List.mem_map.1 hc'
  obtain ⟨hkind, hm⟩ := Index.isResolvable_of_resolve hm
  obtain ⟨hsize, hall⟩ := Call.exists_candidate_of_select hm
  refine ⟨hsize, fun id file he => ?_⟩
  obtain ⟨x, hx, rfl, rfl, hreach, hfile⟩ := hall id file he
  have hback := ((Index.isFrom_of_mem_candidates hx).backs hreach).resolve o
  refine ⟨?_, ?_, hback, fun hn => ?_⟩
  · rintro hb
    exact absurd (hb ▸ hkind) (by decide)
  · rintro hd
    exact absurd (hd ▸ hkind) (by decide)
  · have h₁ := hfile hn
    rw [Call.file_stamp_of_isNative hn] at h₁
    exact (Option.some.inj h₁).symm

/-- A file below a directory, its path written with a backslash, that declares one function twice on
one line, the second time with a parameter. The first declaration comes with an old identifier. -/
def ProjectFacts.twins : ProjectFacts where
  entries :=
    [("lib\\twin.php",
      { methods :=
          [{ id := "old", name := "greet", fullname := "greet", startLine := 1, endLine := 1,
             kind := .general },
           { name := "greet", fullname := "greet", startLine := 1, endLine := 1,
             parameters := [{ index := 0 }], kind := .general },
           { name := fileLevelName, fullname := fileLevelName, startLine := 2, endLine := 2,
             kind := .general,
             calls := [{ name := "greet", fullname := "greet", startLine := 2, endLine := 2,
                         kind := .general, arguments := [{ index := 0 }], isNative := true }] }] })]
  ascending := by decide +kernel

/-- The identifier that the two declarations share. -/
def ProjectFacts.twinId : String := Ident.routine "lib/twin.php" none "greet" 1 1

/-- The call with the one candidate that the shared identifier leaves. -/
def ProjectFacts.twinCall : Call :=
  { name := "greet", fullname := "greet", startLine := 2, endLine := 2, kind := .general,
    arguments := [{ index := 0 }], isNative := true, file := some "lib/twin.php",
    mayBeSource := some (.ofList [(twinId, "lib/twin.php")]) }

open ProjectFacts in
/-- One of two declarations with one identifier backs the candidate. -/
theorem mayBeSource_resolve_backed_twins :
    (twins.resolve {}).files.get? "lib\\twin.php" =
        some (((twins.resolve {}).files.get? "lib\\twin.php").getD {}) ∧
      twinCall ∈ (((twins.resolve {}).files.get? "lib\\twin.php").getD {}).calls ∧
      (twins.resolve {}).files.Backs twinCall twinId "lib/twin.php" := by
  have hf : (twins.resolve {}).files.get? "lib\\twin.php" =
      some (((twins.resolve {}).files.get? "lib\\twin.php").getD {}) := by decide +kernel
  have hc : twinCall ∈ (((twins.resolve {}).files.get? "lib\\twin.php").getD {}).calls := by
    decide +kernel
  obtain ⟨r, hr, hcr⟩ := List.mem_flatMap.1 hc
  obtain ⟨-, hall⟩ := mayBeSource_resolve_backed twins {} hf hr hcr rfl
  exact ⟨hf, hc, (hall twinId "lib/twin.php" (by decide +kernel)).2.2.1⟩

end PhpCalls
