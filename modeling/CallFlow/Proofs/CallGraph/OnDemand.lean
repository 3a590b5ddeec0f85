import CallFlow.Proofs.CallGraph.Extraction
import CallFlow.Proofs.Propagation.Fixpoint

/-!
# Propagation on demand loses no callee

Rounds add only the edges that are wanted. The call graph extracted afterwards is nevertheless
that of the exhaustive edges, in which every function exchanges values with every call that may
invoke it.
-/

namespace CallFlow.CallGraph

open Propagation (grown_run)

variable {program : Program} {graph : FlowGraph}

/-- A run stays within the exhaustive edges, whatever is flagged at its start. -/
theorem edgeSet_run_subset (hreg : CalleesRegistered program graph) :
    (Propagation.run program graph).1.edgeSet ⊆ exhaustive program graph := by
  obtain ⟨hgraph, hclosed⟩ := (exhaustive_isLeast program graph).1
  exact (grown_run hreg).1.least _ hgraph fun f c a b hflow htransfer _ _ =>
    hclosed f c a b hflow htransfer

/-- As much flows into callees after a run as along the exhaustive edges. -/
theorem flows_run_iff (hreg : CalleesRegistered program graph) {v : Vertex} {c : CallId} :
    Flows (exhaustive program graph) v (.callee c) ↔
      Flows (Propagation.run program graph).1.edgeSet v (.callee c) := by
  obtain ⟨hgrown, hsettled⟩ := grown_run hreg
  -- a settled graph has flagged what is wanted, hence it has the transfers that are
  refine flows_exhaustive_iff hgrown.grows (edgeSet_run_subset hreg) ?_
  intro f c a b hflow htransfer hwanted
  exact hsettled.closed f c a b hflow htransfer (hsettled.flagged b htransfer.markable hwanted)

/-- **Propagation on demand is exact.** After a run the callees of a call are exactly the
functions, written or built in, that flow into its callee along the least set of edges which has
those of the graph and is closed under the full rules. -/
theorem mem_callees_run (hreg : CalleesRegistered program graph) :
    IsLeast { E | graph.edgeSet ⊆ E ∧ FullClosed program E } (exhaustive program graph) ∧
    ∀ (c : CallId) (callee : Callee),
      callee ∈ (extract program (Propagation.run program graph).1).callees c ↔
        Flows (exhaustive program graph) callee.vertex (.callee c) := by
  refine ⟨exhaustive_isLeast program graph, fun c callee => ?_⟩
  rw [mem_callees_extract ((grown_run hreg).1.calleesRegistered hreg)]
  exact (flows_run_iff hreg).symm

/-- In the example the function that is passed is found as a callee of the inner call. -/
theorem mem_callees_run_example :
    CalleesRegistered Example.program Example.graph ∧
    .function Example.passed ∈ (extract Example.program
      (Propagation.run Example.program Example.graph).1).callees Example.inner := by
  obtain ⟨⟨⟨hgraph, hclosed⟩, -⟩, hcallees⟩ := mem_callees_run Example.calleesRegistered
  have hedge : ∀ e ∈ Example.graph.edgeSet, e ∈ exhaustive Example.program Example.graph :=
    fun e he => hgraph he
  rw [Example.edgeSet_graph] at hedge
  have hpassed := hedge (.func Example.passed, .arg Example.outer 1) (by simp)
  have hcall := hedge (.param Example.apply 1, .callee Example.inner) (by simp)
  -- the callback is passed to the parameter that the inner call invokes
  have hargument := hclosed _ _ _ _ (.single ⟨rfl, hedge _ (by simp)⟩) Example.transfer
  refine ⟨Example.calleesRegistered, (hcallees _ _).2 ?_⟩
  exact .tail (.tail (.single ⟨rfl, hpassed⟩) ⟨rfl, hargument⟩) ⟨rfl, hcall⟩

end CallFlow.CallGraph
