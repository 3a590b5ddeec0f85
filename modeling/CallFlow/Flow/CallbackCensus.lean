import CallFlow.Flow.Graph

/-!
# Callbacks

A callback is a function written directly as an argument of a call: the only way in which an
edge from a function to an argument comes about. The census reads those edges off the graph.
-/

namespace CallFlow

/-- How many arguments are callbacks, and how many calls have such an argument. -/
structure CallbackStats where
  callbacks : Nat
  calls : Nat
deriving DecidableEq, Repr, Inhabited

namespace CallbackStats

/-- The argument that an edge passes a function to; a receiver is none. -/
def slotOf? (graph : FlowGraph) (edge : VertexId × VertexId) : Option (CallId × Nat) :=
  match graph.vertex? edge.1, graph.vertex? edge.2 with
  | some (.func _), some (.arg call slot) => if slot > 0 then some (call, slot) else none
  | _, _ => none

/-- The census of a graph. -/
def ofGraph (graph : FlowGraph) : CallbackStats :=
  let slots := (graph.edges.filterMap (slotOf? graph)).eraseDups
  { callbacks := slots.length
    calls := (slots.map Prod.fst).eraseDups.length }

end CallbackStats

end CallFlow
