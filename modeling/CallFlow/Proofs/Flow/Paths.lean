import CallFlow.Flow.Reachability
import CallFlow.Proofs.Condensation.Components

/-!
# Paths in a flow graph

A path takes edges out of vertices that are followed; the vertex that it ends in need not be.
The numbers without their type are the graph that is condensed.
-/

namespace CallFlow

theorem VertexId.eq_of_index_eq {u v : VertexId} (h : u.index = v.index) : u = v := by
  obtain ⟨i⟩ := u
  obtain ⟨j⟩ := v
  exact congrArg VertexId.mk h

namespace FlowGraph

/-- An edge out of a vertex that is followed. -/
def Step (graph : FlowGraph) (follows : Vertex → Bool) (u v : VertexId) : Prop :=
  graph.hasEdge u v = true ∧ ∃ x, graph.vertex? u = some x ∧ follows x = true

/-- Zero or more edges, each out of a vertex that is followed. -/
abbrev Path (graph : FlowGraph) (follows : Vertex → Bool) : VertexId → VertexId → Prop :=
  Relation.ReflTransGen (graph.Step follows)

variable {graph : FlowGraph} {follows : Vertex → Bool}

/-- What is followed is a step. -/
theorem mem_followed {u v : VertexId} :
    v.index ∈ graph.followed follows u.index ↔ graph.Step follows u v := by
  rw [Step, hasEdge_iff, followed, vertex?]
  cases h : graph.nodes[u.index]? with
  | none => simp
  | some node =>
    -- a vertex that is not followed has no step out of it
    by_cases hf : follows node.vertex = true
    · simp only [hf, if_true, List.mem_map, Array.mem_toList_iff, Option.some.injEq,
        exists_eq_left', Option.map_some, and_true]
      constructor
      · rintro ⟨w, hw, hwv⟩
        exact VertexId.eq_of_index_eq hwv ▸ hw
      · exact fun hv => ⟨v, hv, rfl⟩
    · simp [hf]

/-- Edges lead to numbers that the graph has given out. -/
theorem followed_lt (graph : FlowGraph) (follows : Vertex → Bool) (u v : Nat)
    (hv : v ∈ graph.followed follows u) : v < graph.nodes.size :=
  (graph.lt_of_hasEdge ((mem_followed (u := ⟨u⟩) (v := ⟨v⟩)).1 hv).1).2

/-- Reaching along what is followed is a path. -/
theorem reaches_followed {u v : VertexId} :
    Condensation.Reaches (graph.followed follows) u.index v.index ↔ graph.Path follows u v := by
  constructor
  · intro h
    exact h.lift (fun i : Nat => (⟨i⟩ : VertexId)) fun i j hij =>
      (mem_followed (u := ⟨i⟩) (v := ⟨j⟩)).1 hij
  · intro h
    exact h.lift VertexId.index fun a b hab => mem_followed.2 hab

/-- A path that takes an edge starts at a number that the graph has given out. -/
theorem Path.lt_of_ne {u v : VertexId} (h : graph.Path follows u v) (hne : u ≠ v) :
    u.index < graph.vertexCount := by
  rcases Relation.ReflTransGen.cases_head h with rfl | ⟨w, huw, -⟩
  · exact absurd rfl hne
  · exact (graph.lt_of_hasEdge huw.1).1

/-- A path stays among the numbers that the graph has given out. -/
theorem Path.lt {u v : VertexId} (h : graph.Path follows u v) (hu : u.index < graph.vertexCount) :
    v.index < graph.vertexCount := by
  rcases Relation.ReflTransGen.cases_tail h with rfl | ⟨w, -, hwv⟩
  · exact hu
  · exact (graph.lt_of_hasEdge hwv.1).2

end FlowGraph

end CallFlow
