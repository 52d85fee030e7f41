import PhpCalls.Resolve.Graph
import PhpCalls.Resolve.Resolver
import PhpCalls.Resolve.Stamp

set_option autoImplicit false

/-!
# Resolving a project

## Main definitions

* `ProjectFacts.resolveAll`: every call of a project with its outcome, and the tally of outcomes.
* `ProjectFacts.resolve`: a project stamped and resolved, with its call graph.
-/

namespace PhpCalls

/-- A resolved project. -/
structure Resolved where
  /-- The files, with identifiers, hints, candidates and callers. -/
  files : ProjectFacts
  /-- The calls counted by outcome. -/
  tally : Tally
  /-- The calls between declarations. -/
  graph : CallGraph

namespace ProjectFacts

/-- All calls of a project, by file, declaration and place. -/
def calls (files : ProjectFacts) : List Call :=
  files.values.flatMap fun f => f.routines.flatMap Routine.calls

/-- Every call of a project with its outcome. -/
def resolveCalls (i : Index) (o : ResolveOptions) (files : ProjectFacts) : ProjectFacts :=
  files.map fun _ f => f.mapRoutines fun r =>
    { r with calls := r.calls.map fun c => { c with mayBeSource := (i.resolve o c).mayBeSource } }

/-- The outcomes of the calls of a project, counted. -/
def tally (i : Index) (o : ResolveOptions) (files : ProjectFacts) : Tally :=
  files.calls.foldl (fun t c => t.add (i.resolve o c)) {}

/-- A project stamped and resolved. -/
def resolve (o : ResolveOptions) (files : ProjectFacts) : Resolved :=
  let stamped := files.stamp
  let i := Index.ofProject stamped
  let found := stamped.resolveCalls i o
  let graph := CallGraph.ofProject found
  { files := found.annotate graph, tally := stamped.tally i o, graph }

end ProjectFacts

end PhpCalls
