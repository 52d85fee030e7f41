import PhpCalls.Proofs.Resolve.Graph

set_option autoImplicit false

/-!
# The tally, the records and the graph

A resolved project tells three times how its calls fared: in the tally, in the candidates that its
calls have, and in the edges of its graph. Each call keeps no more than a map of candidates, or
none. With the sort of the call this is enough to tell its outcome, because an outcome with
candidates never has an empty map, so the tally and the number of edges can be counted again from
the records.

## Main definitions

* `Outcome.Fits`: an outcome that a call of some sort can have.
* `Tally.ofCalls`: the calls of a resolved project counted by what they keep.

## Main results

* `Index.fits_resolve`: the outcome of a call fits its sort.
* `Tally.add_ofCalls`: what a call keeps of a fitting outcome tells the outcome.
* `tally_resolve_eq_counts`: tally, records and graph of a resolved project agree.
-/

namespace PhpCalls

/-! ## Outcomes and sorts -/

/-- A call of the sort can have the outcome. -/
def Outcome.Fits (kind : CallKind) : Outcome → Prop
  | .resolved candidates => kind.isResolvable = true ∧ candidates.isEmpty = false
  | .ambiguous _ | .unresolved => kind.isResolvable = true
  | .builtin => kind = .builtin
  | .dynamic => kind = .dynamic

/-- All calls are resolved but those of what PHP provides and those of the value of an
expression. -/
lemma CallKind.isResolvable_iff {k : CallKind} :
    k.isResolvable = true ↔ k ≠ .builtin ∧ k ≠ .dynamic := by
  cases k <;> decide

/-- Every way through the choice of candidates ends in an outcome of a call that is looked up, and
never with an empty map of candidates. -/
lemma Call.fits_select (o : ResolveOptions) {c : Call} (h : c.kind.isResolvable = true)
    (cs : List Candidate) : (c.select o cs).Fits c.kind := by
  simp only [select_eq]
  split
  case isTrue => exact h
  case isFalse =>
    split
    case isTrue => exact h
    case isFalse hleft =>
      refine ⟨h, Dict.isEmpty_ofList_eq_false fun hnil => hleft ?_⟩
      rw [List.map_eq_nil_iff] at hnil
      rw [hnil, List.isEmpty_nil]

/-- The outcome of a call fits its sort, whatever the index holds. -/
theorem Index.fits_resolve (i : Index) (o : ResolveOptions) (c : Call) :
    (i.resolve o c).Fits c.kind := by
  cases hk : c.kind with
  | builtin | dynamic => simp only [resolve, hk, Outcome.Fits]
  | general | construct | magic | classMethod =>
    simp only [resolve, hk]
    rw [← hk]
    exact c.fits_select o (by rw [hk]; rfl) _

/-! ## Counting what calls keep -/

namespace Call

/-- Declarations were found. -/
def isResolved (c : Call) : Bool := c.mayBeSource.any fun candidates => !candidates.isEmpty

/-- Too many declarations were found. -/
def isAmbiguous (c : Call) : Bool := c.mayBeSource.any Dict.isEmpty

/-- The call was looked up, and no declaration was found. -/
def isUnresolved (c : Call) : Bool := c.kind.isResolvable && c.mayBeSource.isNone

end Call

/-- The calls of a resolved project, counted by what they keep. -/
def Tally.ofCalls (calls : List Call) : Tally where
  resolved := calls.countP Call.isResolved
  unresolved := calls.countP Call.isUnresolved
  ambiguous := calls.countP Call.isAmbiguous
  builtin := calls.countP fun c => c.kind = .builtin
  dynamic := calls.countP fun c => c.kind = .dynamic

/-- What a call keeps of a fitting outcome counts as the outcome does. -/
lemma Tally.add_ofCalls (calls : List Call) {c : Call} {x : Outcome} (h : x.Fits c.kind) :
    (ofCalls calls).add x = ofCalls (calls ++ [{ c with mayBeSource := x.mayBeSource }]) := by
  cases x with
  | resolved candidates =>
    obtain ⟨hkind, hne⟩ := h
    obtain ⟨hb, hd⟩ := CallKind.isResolvable_iff.1 hkind
    simp [add, ofCalls, Call.isResolved, Call.isUnresolved, Call.isAmbiguous, Outcome.mayBeSource,
      hne, hb, hd]
  | ambiguous count =>
    obtain ⟨hb, hd⟩ := CallKind.isResolvable_iff.1 h
    simp [add, ofCalls, Call.isResolved, Call.isUnresolved, Call.isAmbiguous, Outcome.mayBeSource,
      Dict.isEmpty, Dict.empty, hb, hd]
  | unresolved =>
    have hkind : c.kind.isResolvable = true := h
    obtain ⟨hb, hd⟩ := CallKind.isResolvable_iff.1 hkind
    simp [add, ofCalls, Call.isResolved, Call.isUnresolved, Call.isAmbiguous, Outcome.mayBeSource,
      hkind, hb, hd]
  | builtin =>
    have hb : c.kind = .builtin := h
    simp [add, ofCalls, Call.isResolved, Call.isUnresolved, Call.isAmbiguous, Outcome.mayBeSource,
      hb, CallKind.isResolvable]
  | dynamic =>
    have hd : c.kind = .dynamic := h
    simp [add, ofCalls, Call.isResolved, Call.isUnresolved, Call.isAmbiguous, Outcome.mayBeSource,
      hd, CallKind.isResolvable]

/-- Each outcome counts once. -/
lemma Tally.total_add (t : Tally) (x : Outcome) : (t.add x).total = t.total + 1 := by
  cases x <;> simp only [add, total] <;> omega

namespace ProjectFacts

variable (i : Index) (o : ResolveOptions)

/-- The tally of outcomes counts the settled calls, each by what it keeps.

**Proof sketch.** Induction on the calls from the right: the last call adds its outcome to the
tally, and what it keeps of it to the count. -/
lemma tally_eq_ofCalls (files : ProjectFacts) :
    files.tally i o = Tally.ofCalls (files.calls.map (Call.settled i o)) := by
  unfold tally
  induction files.calls using List.reverseRecOn with
  | nil => rfl
  | append_singleton calls c ih =>
    rw [List.foldl_append, List.foldl_cons, List.foldl_nil, ih, List.map_append]
    exact Tally.add_ofCalls _ (i.fits_resolve o c)

/-- The tally counts every call once. -/
lemma total_tally (files : ProjectFacts) : (files.tally i o).total = files.calls.length := by
  unfold tally
  induction files.calls using List.reverseRecOn with
  | nil => rfl
  | append_singleton calls c ih =>
    rw [List.foldl_append, List.foldl_cons, List.foldl_nil, Tally.total_add, ih, List.length_append,
      List.length_singleton]

end ProjectFacts

/-- A call that is not looked up keeps no candidates. -/
lemma Call.mayBeSource_settled_of_not_isResolvable (i : Index) (o : ResolveOptions) {c : Call}
    (h : c.kind = .builtin ∨ c.kind = .dynamic) : (c.settled i o).mayBeSource = none := by
  rcases h with hk | hk <;> simp only [settled, Index.resolve, hk, Outcome.mayBeSource]

/-- Calls without candidates add nothing to the number of candidates. -/
lemma sum_candidateCount (calls : List Call) :
    (calls.map Call.candidateCount).sum =
      (((calls.filterMap Call.mayBeSource).filter fun m => !m.isEmpty).map Dict.size).sum := by
  induction calls with
  | nil => rfl
  | cons c calls ih =>
    rw [List.map_cons, List.sum_cons, ih]
    cases hm : c.mayBeSource with
    | none => simp [Call.candidateCount, hm]
    | some m =>
      rw [List.filterMap_cons_some hm]
      cases he : m.entries with
      | nil => simp [Call.candidateCount, hm, Dict.isEmpty, Dict.size, he]
      | cons e rest => simp [Call.candidateCount, hm, Dict.isEmpty, Dict.size, he]

/-! ## The three accounts of a resolved project -/

/-- **Tally, records and graph agree.** In a resolved project the tally has one outcome for each
call. The calls of callees that PHP provides and the calls that name no callee are counted by their
sort, and keep no candidates; among the others, those are resolved which keep a map with candidates,
those ambiguous which keep an empty one, and those unresolved which keep none. The graph has one
edge for each candidate. -/
theorem tally_resolve_eq_counts (files : ProjectFacts) (o : ResolveOptions) :
    let r := files.resolve o
    let calls := r.files.calls
    r.tally.total = calls.length ∧
    r.tally.builtin = calls.countP (fun c => c.kind = .builtin) ∧
    r.tally.dynamic = calls.countP (fun c => c.kind = .dynamic) ∧
    (∀ c ∈ calls, c.kind = .builtin ∨ c.kind = .dynamic → c.mayBeSource = none) ∧
    r.tally.resolved = calls.countP (fun c => c.mayBeSource.any fun m => !m.isEmpty) ∧
    r.tally.ambiguous = calls.countP (fun c => c.mayBeSource.any Dict.isEmpty) ∧
    r.tally.unresolved =
      calls.countP (fun c => c.kind ≠ .builtin && c.kind ≠ .dynamic && c.mayBeSource.isNone) ∧
    r.graph.edgeCount =
      (((calls.filterMap Call.mayBeSource).filter fun m => !m.isEmpty).map Dict.size).sum := by
  intro r calls
  have hcalls : calls = files.stamp.calls.map (Call.settled (Index.ofProject files.stamp) o) :=
    files.calls_resolve o
  -- the tally is made of outcomes, which can be read off the settled calls
  have htally : r.tally = Tally.ofCalls calls := by
    rw [hcalls]
    exact files.stamp.tally_eq_ofCalls _ o
  have hsort : ∀ c : Call, (c.kind ≠ .builtin && c.kind ≠ .dynamic) = c.kind.isResolvable := by
    intro c
    cases c.kind <;> decide
  refine ⟨?_, ?_, ?_, ?_, ?_, ?_, ?_, ?_⟩
  · rw [hcalls, List.length_map]
    exact files.stamp.total_tally _ o
  · rw [htally]
    rfl
  · rw [htally]
    rfl
  · intro c hc hk
    rw [hcalls] at hc
    obtain ⟨d, -, rfl⟩ := List.mem_map.1 hc
    exact d.mayBeSource_settled_of_not_isResolvable _ o hk
  · rw [htally]
    rfl
  · rw [htally]
    rfl
  · simp only [htally, hsort]
    rfl
  · rw [← sum_candidateCount, hcalls, ← ProjectFacts.calls_resolveCalls]
    exact CallGraph.edgeCount_ofProject _

/-- Two files with a call for every outcome, if no more than one candidate is believed: `once` is
declared in one of them, `twice` in both, and `never` in none. -/
def ProjectFacts.fates : ProjectFacts where
  entries :=
    [("a.php",
      { methods :=
          [{ name := fileLevelName, fullname := fileLevelName, startLine := 1, endLine := 9,
             kind := .general,
             calls :=
               [{ name := "strlen", fullname := "strlen", startLine := 2, endLine := 2,
                  kind := .builtin },
                { name := "$f", fullname := "$f", startLine := 3, endLine := 3, kind := .dynamic },
                { name := "once", fullname := "once", startLine := 4, endLine := 4,
                  kind := .general },
                { name := "twice", fullname := "twice", startLine := 5, endLine := 5,
                  kind := .general },
                { name := "never", fullname := "never", startLine := 6, endLine := 6,
                  kind := .general }] },
           { name := "twice", fullname := "twice", startLine := 8, endLine := 8,
             kind := .general }] }),
     ("b.php",
      { methods :=
          [{ name := "once", fullname := "once", startLine := 2, endLine := 2, kind := .general },
           { name := "twice", fullname := "twice", startLine := 3, endLine := 3,
             kind := .general }] })]
  ascending := by decide +kernel

open ProjectFacts in
/-- Each outcome is counted once, the calls that are not looked up keep no candidates, and only the
call of `once` has an edge. -/
theorem tally_resolve_eq_counts_fates :
    (fates.resolve { ambiguityCap := 1 }).tally = ⟨1, 1, 1, 1, 1⟩ ∧
    (fates.resolve { ambiguityCap := 1 }).graph.edgeCount = 1 ∧
    ∃ c ∈ (fates.resolve { ambiguityCap := 1 }).files.calls,
      (c.kind = .builtin ∨ c.kind = .dynamic) ∧ c.mayBeSource = none := by
  have hvalues : (fates.resolve { ambiguityCap := 1 }).tally = ⟨1, 1, 1, 1, 1⟩ ∧
      (fates.resolve { ambiguityCap := 1 }).graph.edgeCount = 1 ∧
      ∃ c ∈ (fates.resolve { ambiguityCap := 1 }).files.calls,
        c.kind = .builtin ∨ c.kind = .dynamic := by decide +kernel
  obtain ⟨htally, hedges, c, hc, hk⟩ := hvalues
  obtain ⟨-, -, -, hnone, -⟩ := tally_resolve_eq_counts fates { ambiguityCap := 1 }
  exact ⟨htally, hedges, c, hc, hk, hnone c hc hk⟩

end PhpCalls
