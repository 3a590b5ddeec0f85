import CallFlow.Flow.Condensation
import CallFlow.Flow.Graph

/-!
# Reachability in a flow graph

A `Reachability` is taken of a graph at one time and answers for that time. A vertex that the
snapshot does not follow is reached, but none of its edges is used. The components that a
component leads to are searched for once; later searches take the answer over.
-/

namespace CallFlow

/-- Flow stops at `Unknown`. -/
def Vertex.isTracked (v : Vertex) : Bool :=
  !v.isUnknown

/-- What was reachable in a graph when the snapshot was taken. For each component that was asked
for, `known` has the components that it leads to, itself included, ascending. -/
structure Reachability where
  condensation : Condensation
  known : Array (Option (List Nat))
deriving Inhabited

namespace FlowGraph

/-- The targets of the edges that are followed out of vertex number `v`. -/
def followed (graph : FlowGraph) (follows : Vertex → Bool) (v : Nat) : List Nat :=
  match graph.nodes[v]? with
  | some node => if follows node.vertex then node.successors.toList.map VertexId.index else []
  | none => []

/-- A snapshot that uses the edges out of the vertices which `follows` accepts. -/
def reachability (graph : FlowGraph) (follows : Vertex → Bool) : Reachability :=
  let condensation := Condensation.ofAdjacency graph.nodes.size (graph.followed follows)
  { condensation
    known := Array.replicate condensation.members.size none }

end FlowGraph

namespace Reachability

/-- Marks a component as seen and puts it on the work list, unless it has been seen. -/
def see (state : Array Bool × List Nat) (k : Nat) : Array Bool × List Nat :=
  if state.1.getD k true then state else (state.1.setIfInBounds k true, k :: state.2)

/-- Works off a list of components that have been seen, at most `n` of them. What a component
leads to is seen at once if it is known; otherwise its successors are put on the list. -/
def search (snapshot : Reachability) : Nat → Array Bool × List Nat → Array Bool
  | 0, (seen, _) => seen
  | _ + 1, (seen, []) => seen
  | n + 1, (seen, k :: work) =>
    match snapshot.known.getD k none with
    | some closed => snapshot.search n (closed.foldl (·.setIfInBounds · true) seen, work)
    | none =>
      snapshot.search n ((snapshot.condensation.successors.getD k []).foldl see (seen, work))

/-- The components that `start` leads to, itself included, ascending. -/
def closure (snapshot : Reachability) (start : Nat) : List Nat :=
  match snapshot.known.getD start none with
  | some closed => closed
  | none =>
    let size := snapshot.condensation.members.size
    let seen := snapshot.search size
      ((Array.replicate size false).setIfInBounds start true, [start])
    (List.range size).filter (seen.getD · false)

/-- The vertices reached from `source` by zero or more edges, each once, and the snapshot with
the answer kept in it. A vertex that is newer than the snapshot reaches itself only. -/
def query (snapshot : Reachability) (source : VertexId) : List VertexId × Reachability :=
  match snapshot.condensation.component[source.index]? with
  | none => ([source], snapshot)
  | some start =>
    let closed := snapshot.closure start
    (closed.flatMap fun k => (snapshot.condensation.members.getD k []).map (⟨·⟩),
      { snapshot with known := snapshot.known.setIfInBounds start (some closed) })

def reachedFrom (snapshot : Reachability) (source : VertexId) : List VertexId :=
  (snapshot.query source).1

/-- Whether a vertex that `p` accepts is reached from `source`. -/
def queryAny (snapshot : Reachability) (source : VertexId) (p : VertexId → Bool) :
    Bool × Reachability :=
  let (reached, snapshot) := snapshot.query source
  (reached.any p, snapshot)

def anyReached (snapshot : Reachability) (source : VertexId) (p : VertexId → Bool) : Bool :=
  (snapshot.queryAny source p).1

end Reachability

end CallFlow
