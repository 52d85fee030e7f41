import Mathlib.Data.Set.Card
import PhpCalls.Proofs.Resolve.Project

set_option autoImplicit false

/-!
# The graph and the records

The graph of a project is built in one pass over its records, in which identifiers may repeat. Here
it is read off the records: who is a node, how many nodes and edges there are, who may call whom, by
which calls, and what is written into the declarations.

## Main definitions

* `ProjectFacts.Mentions`, `ProjectFacts.MayCall`: the nodes and the relation between them, as the
  records have them.
* `CallGraph.Grown`: what a part of the pass adds to a graph.
* `CallGraph.Depicts`: a graph answers every question as the records do.

## Main results

* `CallGraph.grown_foldl`: what a loop adds is what its turns add.
* `CallGraph.grown_ofProject`: what the whole pass adds.
* `depicts_ofProject`: the graph of a project depicts its records.
-/

namespace PhpCalls

/-! ## Calls in the records -/

namespace Call

/-- The call may mean the declaration with the identifier. -/
def lists (id : String) (c : Call) : Bool :=
  c.mayBeSource.any fun candidates => candidates.contains id

/-- The number of declarations that the call may mean. -/
def candidateCount (c : Call) : Nat := (c.mayBeSource.map Dict.size).getD 0

/-- The identifiers of the declarations that the call may mean, in ascending order. -/
def candidateIds (c : Call) : List String := (c.mayBeSource.map Dict.keys).getD []

/-- The edge from a declaration with the call to a declaration that it may mean. -/
def edge (caller : String) (c : Call) (callee : String) : Edge :=
  { caller, callee, line := c.startLine, name := c.name }

/-- A call lists the identifiers of its candidates. -/
lemma lists_iff {c : Call} {id : String} : c.lists id = true ↔ id ∈ c.candidateIds := by
  cases h : c.mayBeSource with
  | none => simp [lists, candidateIds, h]
  | some candidates => simp [lists, candidateIds, h, Dict.contains_iff_mem_keys]

/-- The candidates of a call have different identifiers. -/
lemma nodup_candidateIds (c : Call) : c.candidateIds.Nodup := by
  cases h : c.mayBeSource with
  | none => simp [candidateIds, h]
  | some candidates => simpa [candidateIds, h] using candidates.nodup_keys

/-- A call has as many candidates as it counts. -/
lemma length_candidateIds (c : Call) : c.candidateIds.length = c.candidateCount := by
  cases h : c.mayBeSource with
  | none => simp [candidateIds, candidateCount, h]
  | some candidates => simp [candidateIds, candidateCount, h, Dict.keys, Dict.size]

/-- A call lists an identifier at most once. -/
lemma filter_candidateIds (c : Call) (id : String) :
    (c.candidateIds.filter fun b => b = id) = if c.lists id then [id] else [] := by
  have hcount : c.candidateIds.count id = if id ∈ c.candidateIds then 1 else 0 :=
    c.nodup_candidateIds.count
  have hrep : (c.candidateIds.filter fun b => b = id) =
      List.replicate (c.candidateIds.count id) id := List.filter_eq id
  rw [hrep, hcount]
  by_cases h : id ∈ c.candidateIds
  · rw [if_pos h, if_pos (lists_iff.2 h)]
    rfl
  · rw [if_neg h, if_neg (fun hl => h (lists_iff.1 hl))]
    rfl

end Call

/-- The edges of a declaration, in the order of its calls. -/
def Routine.edges (r : Routine) : List Edge :=
  r.calls.flatMap fun c => c.candidateIds.map (c.edge r.id)

namespace ProjectFacts

/-- The calls of the declarations with the identifier, by path and place. -/
def callsOf (files : ProjectFacts) (id : String) : List Call :=
  (files.routines.filter fun r => r.id = id).flatMap Routine.calls

/-- The identifier belongs to a declaration, or a call may mean it. -/
def Mentions (files : ProjectFacts) (id : String) : Prop :=
  (∃ r ∈ files.routines, r.id = id) ∨ ∃ c ∈ files.calls, c.lists id = true

/-- A call of a declaration with the first identifier may mean the second. -/
def MayCall (files : ProjectFacts) (caller callee : String) : Prop :=
  ∃ c ∈ files.callsOf caller, c.lists callee = true

/-- The project with the callers of its declarations left out. -/
def withoutCallers (files : ProjectFacts) : ProjectFacts :=
  files.map fun _ f => f.mapRoutines fun r => { r with calledBy := [] }

end ProjectFacts

namespace CallGraph

/-! ## What the pass adds -/

/-- The second graph is the first one after identifiers were met and edges added. -/
structure Grown (g g' : CallGraph) (met : List String) (added : List Edge) : Prop where
  edges : g'.edges = added.reverse ++ g.edges
  contains : ∀ a, g'.contains a = true ↔ a ∈ met ∨ g.contains a = true

/-- A graph is itself after nothing was met or added. -/
lemma Grown.refl (g : CallGraph) : Grown g g [] [] := ⟨rfl, by simp⟩

/-- What was met and added in two turns was met and added in one. -/
lemma Grown.trans {g₁ g₂ g₃ : CallGraph} {met met' : List String} {added added' : List Edge}
    (h : Grown g₁ g₂ met added) (h' : Grown g₂ g₃ met' added') :
    Grown g₁ g₃ (met ++ met') (added ++ added') where
  edges := by rw [h'.edges, h.edges, List.reverse_append, List.append_assoc]
  contains a := by
    rw [h'.contains, h.contains, List.mem_append]
    tauto

/-- What a loop adds is what its turns add, one after the other. -/
lemma grown_foldl {α : Type} {step : CallGraph → α → CallGraph} {met : α → List String}
    {added : α → List Edge} (h : ∀ g x, Grown g (step g x) (met x) (added x)) (l : List α)
    (g : CallGraph) : Grown g (l.foldl step g) (l.flatMap met) (l.flatMap added) := by
  induction l generalizing g with
  | nil => exact .refl g
  | cons x l ih => exact (h g x).trans (ih (step g x))

/-- A node is met. -/
lemma grown_addNode (g : CallGraph) (id : String) : Grown g (g.addNode id) [id] [] := by
  unfold addNode
  split
  case isTrue h =>
    refine ⟨rfl, fun a => ?_⟩
    rw [List.mem_singleton]
    constructor
    · exact .inr
    · rintro (rfl | ha)
      · exact h
      · exact ha
  case isFalse h =>
    refine ⟨rfl, fun a => ?_⟩
    simp only [contains, Dict.contains_insert, Bool.or_eq_true, decide_eq_true_eq,
      List.mem_singleton, @eq_comm _ id a]

/-- With an edge its end is met. -/
lemma grown_addEdge (g : CallGraph) (e : Edge) : Grown g (g.addEdge e) [e.callee] [e] := by
  obtain ⟨hedges, hcontains⟩ := grown_addNode g e.callee
  exact ⟨by simpa [addEdge] using hedges, hcontains⟩

/-- For a call an edge to each of its candidates is added. -/
lemma grown_addCall (caller : String) (g : CallGraph) (c : Call) :
    Grown g (addCall caller g c) c.candidateIds (c.candidateIds.map (c.edge caller)) := by
  unfold addCall Call.candidateIds
  cases c.mayBeSource with
  | none => exact .refl g
  | some candidates =>
    have hloop := grown_foldl (fun g callee => grown_addEdge g (c.edge caller callee))
      candidates.keys g
    have hmet : candidates.keys.flatMap (fun callee => [(c.edge caller callee).callee]) =
        candidates.keys := List.flatMap_singleton' _
    rw [hmet, ← List.map_eq_flatMap] at hloop
    exact hloop

/-- For a routine it is met itself, and the edges of its calls are added. -/
lemma grown_addRoutine (g : CallGraph) (r : Routine) :
    Grown g (g.addRoutine r) (r.id :: r.calls.flatMap Call.candidateIds) r.edges :=
  (grown_addNode g r.id).trans (grown_foldl (grown_addCall r.id) r.calls _)

/-- The pass over a project meets its declarations and what their calls list, and adds one edge for
each identifier that a call lists. -/
theorem grown_ofProject (files : ProjectFacts) :
    Grown {} (ofProject files)
      (files.routines.flatMap fun r => r.id :: r.calls.flatMap Call.candidateIds)
      (files.routines.flatMap Routine.edges) := by
  have hfile : ∀ (g : CallGraph) (f : FileFacts), Grown g (g.addFile f)
      (f.routines.flatMap fun r => r.id :: r.calls.flatMap Call.candidateIds)
      (f.routines.flatMap Routine.edges) := fun g f => grown_foldl grown_addRoutine f.routines g
  have hpass := grown_foldl hfile files.values {}
  rw [← List.flatMap_assoc, ← List.flatMap_assoc] at hpass
  exact hpass

/-! ## Nodes and edges -/

/-- The nodes are the identifiers that the records mention. -/
lemma contains_ofProject_iff (files : ProjectFacts) (a : String) :
    (ofProject files).contains a = true ↔ files.Mentions a := by
  have hempty : ¬ (({} : CallGraph).contains a = true) := by simp [contains, Dict.contains]
  rw [(grown_ofProject files).contains, or_iff_left hempty, ProjectFacts.Mentions,
    ProjectFacts.calls_eq_flatMap_routines]
  simp only [List.mem_flatMap, List.mem_cons, Call.lists_iff]
  constructor
  · rintro ⟨r, hr, rfl | ⟨c, hc, ha⟩⟩
    · exact .inl ⟨r, hr, rfl⟩
    · exact .inr ⟨c, ⟨r, hr, hc⟩, ha⟩
  · rintro (⟨r, hr, rfl⟩ | ⟨c, ⟨r, hr, hc⟩, ha⟩)
    · exact ⟨r, hr, .inl rfl⟩
    · exact ⟨r, hr, .inr ⟨c, hc, ha⟩⟩

/-- There are as many nodes as identifiers of which the graph says that they are nodes. -/
lemma nodeCount_eq_ncard (g : CallGraph) : g.nodeCount = {a | g.contains a = true}.ncard := by
  have hset : {a | g.contains a = true} = (g.nodes.keys.toFinset : Set String) := by
    ext a
    simp [contains, Dict.contains_iff_mem_keys]
  rw [hset, Set.ncard_coe_finset, List.toFinset_card_of_nodup g.nodes.nodup_keys]
  simp [nodeCount, Dict.size, Dict.keys]

/-- The edges are those of the calls of all routines, the last first. -/
lemma edges_ofProject (files : ProjectFacts) :
    (ofProject files).edges = (files.routines.flatMap Routine.edges).reverse := by
  rw [(grown_ofProject files).edges, List.append_nil]

/-- A call has as many edges as there are declarations that it may mean. -/
lemma edgeCount_ofProject (files : ProjectFacts) :
    (ofProject files).edgeCount = (files.calls.map Call.candidateCount).sum := by
  have hroutine : ∀ r : Routine, r.edges.length = (r.calls.map Call.candidateCount).sum := by
    intro r
    simp [Routine.edges, List.length_flatMap, Call.length_candidateIds]
  rw [edgeCount, edges_ofProject, List.length_reverse, List.length_flatMap,
    ProjectFacts.calls_eq_flatMap_routines, List.map_flatMap, List.flatMap_def, List.sum_flatten,
    List.map_map]
  exact congrArg List.sum (List.map_congr_left fun r _ => hroutine r)

/-! ## Neighbours -/

/-- Sorting loses and adds no identifier. -/
lemma mem_sortedOnce {ids : List String} {a : String} : a ∈ sortedOnce ids ↔ a ∈ ids := by
  simp [sortedOnce, Dict.mem_keys_ofList]

/-- Sorted identifiers are in ascending order, so each stands once. -/
lemma ascending_sortedOnce (ids : List String) : (sortedOnce ids).Pairwise (· < ·) :=
  Dict.ascending_keys _

/-- Who is called and who calls are two readings of the same edges. -/
lemma mem_callees_iff {g : CallGraph} {a b : String} :
    b ∈ g.callees a ↔ ∃ e ∈ g.edges, e.caller = a ∧ e.callee = b := by
  simp [callees, mem_sortedOnce, and_assoc]

/-- The callers of a declaration are those with an edge to it. -/
lemma mem_callers_iff {g : CallGraph} {a b : String} :
    a ∈ g.callers b ↔ ∃ e ∈ g.edges, e.caller = a ∧ e.callee = b := by
  simp [callers, mem_sortedOnce, and_assoc, and_comm]

/-- Of the edges of a call, one at most leads to an identifier. -/
lemma filter_map_edge (c : Call) (id a b : String) :
    ((c.candidateIds.map (c.edge id)).filter fun e => e.caller = a && e.callee = b) =
      if id = a then ([c].filter (Call.lists b)).map fun c => c.edge a b else [] := by
  by_cases hid : id = a
  · subst hid
    have hcallee : ((fun e : Edge => e.caller = id && e.callee = b) ∘ c.edge id) =
        fun callee => decide (callee = b) := by
      funext callee
      show (decide (id = id) && decide (callee = b)) = decide (callee = b)
      rw [decide_eq_true rfl, Bool.true_and]
    rw [List.filter_map, hcallee, c.filter_candidateIds, if_pos rfl]
    cases h : c.lists b <;> simp [h]
  · rw [if_neg hid, List.filter_eq_nil_iff]
    simp [Call.edge, hid]

/-- The edges from one identifier to another come from the calls of the first that list the
second. -/
lemma filter_edges (files : ProjectFacts) (a b : String) :
    ((files.routines.flatMap Routine.edges).filter fun e => e.caller = a && e.callee = b) =
      ((files.callsOf a).filter (Call.lists b)).map fun c => c.edge a b := by
  have hroutine : ∀ r : Routine, (r.edges.filter fun e => e.caller = a && e.callee = b) =
      if r.id = a then (r.calls.filter (Call.lists b)).map fun c => c.edge a b else [] := by
    intro r
    rw [Routine.edges, List.filter_flatMap]
    simp only [filter_map_edge]
    by_cases hr : r.id = a
    · simp only [hr, if_true, ← List.map_flatMap, ← List.filter_flatMap, List.flatMap_singleton']
    · simp [hr]
  rw [List.filter_flatMap]
  simp only [hroutine]
  rw [flatMap_ite_nil, ProjectFacts.callsOf, List.filter_flatMap, List.map_flatMap]

/-- Between two declarations there is an edge for each call of the one that lists the other. -/
lemma edgesBetween_ofProject (files : ProjectFacts) (a b : String) :
    (ofProject files).edgesBetween a b =
      (((files.callsOf a).filter (Call.lists b)).map fun c => c.edge a b).reverse := by
  rw [edgesBetween, edges_ofProject, List.filter_reverse, filter_edges]

/-- A declaration may call another if there is an edge between them. -/
lemma exists_edge_iff (files : ProjectFacts) (a b : String) :
    (∃ e ∈ (ofProject files).edges, e.caller = a ∧ e.callee = b) ↔ files.MayCall a b := by
  have hbetween : (∃ e ∈ (ofProject files).edges, e.caller = a ∧ e.callee = b) ↔
      (ofProject files).edgesBetween a b ≠ [] := by
    simp [edgesBetween, List.filter_eq_nil_iff]
  rw [hbetween, edgesBetween_ofProject]
  simp [ProjectFacts.MayCall, List.filter_eq_nil_iff]

/-! ## The records and the graph -/

/-- The graph answers every question as the records of the project do. -/
structure Depicts (g : CallGraph) (files : ProjectFacts) : Prop where
  /-- The nodes are the identifiers of declarations and those that calls list. -/
  contains_iff : ∀ a, g.contains a = true ↔ files.Mentions a
  nodeCount_eq : g.nodeCount = {a | files.Mentions a}.ncard
  edgeCount_eq : g.edgeCount = (files.calls.map Call.candidateCount).sum
  callees_ascend : ∀ a, (g.callees a).Pairwise (· < ·)
  mem_callees : ∀ a b, b ∈ g.callees a ↔ files.MayCall a b
  /-- Who is called and who calls agree. -/
  callers_of_callees : ∀ a b, b ∈ g.callees a ↔ a ∈ g.callers b
  /-- Between two identifiers stands one edge for every call of the first that lists the second, the
  latest first. -/
  edgesBetween_eq : ∀ a b, g.edgesBetween a b =
    (((files.callsOf a).filter (Call.lists b)).map fun c => c.edge a b).reverse
  /-- Writing the callers into the declarations changes nothing else. -/
  annotate_keeps : (files.annotate g).withoutCallers = files.withoutCallers
  calledBy_ascends : ∀ r ∈ (files.annotate g).routines, r.calledBy.Pairwise (· < ·)
  mem_calledBy : ∀ r ∈ (files.annotate g).routines, ∀ a, a ∈ r.calledBy ↔ files.MayCall a r.id

end CallGraph

namespace ProjectFacts

/-- Annotation gives each routine its callers and changes nothing else of it. -/
lemma routines_annotate (files : ProjectFacts) (g : CallGraph) :
    (files.annotate g).routines =
      files.routines.map fun r => { r with calledBy := g.callers r.id } := by
  simp only [routines, annotate, Dict.values, Dict.entries_map, List.map_map, List.flatMap_map,
    List.map_flatMap, Function.comp_apply, FileFacts.routines_mapRoutines]

/-- Apart from the callers, annotation changes nothing. -/
lemma withoutCallers_annotate (files : ProjectFacts) (g : CallGraph) :
    (files.annotate g).withoutCallers = files.withoutCallers := by
  apply Dict.ext_entries
  simp only [withoutCallers, annotate, Dict.entries_map, List.map_map, Function.comp_def,
    FileFacts.mapRoutines_mapRoutines]

end ProjectFacts

/-- **The graph is the relation in the records.** Whatever identifiers and candidates the records of
a project hold, the graph of the project has just the nodes, the edges and the neighbours that the
records say, and the callers that it gives to a declaration are those with a call that lists it. -/
theorem depicts_ofProject (files : ProjectFacts) : (CallGraph.ofProject files).Depicts files where
  contains_iff := CallGraph.contains_ofProject_iff files
  nodeCount_eq := by
    rw [CallGraph.nodeCount_eq_ncard]
    simp only [CallGraph.contains_ofProject_iff]
  edgeCount_eq := CallGraph.edgeCount_ofProject files
  callees_ascend a := CallGraph.ascending_sortedOnce _
  mem_callees a b := CallGraph.mem_callees_iff.trans (CallGraph.exists_edge_iff files a b)
  callers_of_callees a b := CallGraph.mem_callees_iff.trans CallGraph.mem_callers_iff.symm
  edgesBetween_eq := CallGraph.edgesBetween_ofProject files
  annotate_keeps := files.withoutCallers_annotate _
  calledBy_ascends r hr := by
    rw [ProjectFacts.routines_annotate] at hr
    obtain ⟨s, -, rfl⟩ := List.mem_map.1 hr
    exact CallGraph.ascending_sortedOnce _
  mem_calledBy r hr a := by
    rw [ProjectFacts.routines_annotate] at hr
    obtain ⟨s, -, rfl⟩ := List.mem_map.1 hr
    exact CallGraph.mem_callers_iff.trans (CallGraph.exists_edge_iff files a s.id)

end PhpCalls
