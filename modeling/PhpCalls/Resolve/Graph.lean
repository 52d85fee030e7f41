import PhpCalls.Record.Basic

set_option autoImplicit false

/-!
# The call graph

The nodes are the identifiers of declarations; every call adds an edge to each declaration that it
may mean. A node is made when its identifier is first met, as a declaration or as what a call may
mean. So an identifier has one node and a node has one identifier: nodes are known by their
identifiers, and one dictionary serves as the list of nodes and as the table in which they are
looked up.

## Main definitions

* `CallGraph`: the nodes, and the edges, the latest first.
* `CallGraph.addRoutine`: the graph with one more declaration and its calls.
* `CallGraph.ofProject`: the graph of resolved calls.
* `CallGraph.callees`, `CallGraph.callers`, `CallGraph.edgesBetween`: the neighbours of a node.
* `ProjectFacts.annotate`: the callers of every declaration, written into it.
-/

namespace PhpCalls

/-- A call from one declaration to another. -/
structure Edge where
  caller : String
  callee : String
  /-- The line of the call. -/
  line : Nat
  /-- The name as written. -/
  name : String
deriving DecidableEq

/-- The declarations of a project and the calls between them. -/
structure CallGraph where
  /-- The identifiers of the nodes. -/
  nodes : Dict Unit := .empty
  /-- The edges, the latest first. -/
  edges : List Edge := []
deriving DecidableEq

namespace CallGraph

/-- The graph with a node, which is made unless it is there. -/
def addNode (g : CallGraph) (id : String) : CallGraph :=
  if g.nodes.contains id then g else { g with nodes := g.nodes.insert id () }

/-- The graph with one more edge and the node that it leads to. -/
def addEdge (g : CallGraph) (e : Edge) : CallGraph :=
  let g := g.addNode e.callee
  { g with edges := e :: g.edges }

/-- The graph with the edges of one more call of a declaration. -/
def addCall (caller : String) (g : CallGraph) (c : Call) : CallGraph :=
  match c.mayBeSource with
  | none => g
  | some candidates =>
    candidates.keys.foldl
      (fun g callee => g.addEdge { caller, callee, line := c.startLine, name := c.name }) g

/-- The graph with one more declaration and its calls. -/
def addRoutine (g : CallGraph) (r : Routine) : CallGraph :=
  r.calls.foldl (addCall r.id) (g.addNode r.id)

/-- The graph with the declarations of one more file. -/
def addFile (g : CallGraph) (f : FileFacts) : CallGraph := f.routines.foldl addRoutine g

/-- The graph of resolved calls. -/
def ofProject (files : ProjectFacts) : CallGraph := files.values.foldl addFile {}

/-- Texts in ascending order, each once. -/
def sortedOnce (ids : List String) : List String := (Dict.ofList (ids.map fun id => (id, ()))).keys

/-- The identifier is a node. -/
def contains (g : CallGraph) (id : String) : Bool := g.nodes.contains id

/-- The identifiers that a declaration may call, in ascending order. -/
def callees (g : CallGraph) (id : String) : List String :=
  sortedOnce ((g.edges.filter fun e => e.caller = id).map Edge.callee)

/-- The identifiers that may call a declaration, in ascending order. -/
def callers (g : CallGraph) (id : String) : List String :=
  sortedOnce ((g.edges.filter fun e => e.callee = id).map Edge.caller)

/-- The calls from one declaration to another, the latest first. -/
def edgesBetween (g : CallGraph) (caller callee : String) : List Edge :=
  g.edges.filter fun e => e.caller = caller && e.callee = callee

/-- The number of nodes. -/
def nodeCount (g : CallGraph) : Nat := g.nodes.size

/-- The number of edges. -/
def edgeCount (g : CallGraph) : Nat := g.edges.length

end CallGraph

/-- Every declaration with its callers. -/
def ProjectFacts.annotate (files : ProjectFacts) (g : CallGraph) : ProjectFacts :=
  files.map fun _ f => f.mapRoutines fun r => { r with calledBy := g.callers r.id }

end PhpCalls
