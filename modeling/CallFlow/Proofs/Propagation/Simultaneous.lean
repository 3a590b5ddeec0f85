import CallFlow.Proofs.Propagation.Extension
import Mathlib.Order.CompletePartialOrder

/-!
# A round is one simultaneous step

A round marks vertices and inserts edges while it goes on. `stepFlags` and `stepEdges` are what it
would do at once if it saw nothing but the graph at its start. It does just that, in whatever order
it takes functions and calls.
-/

namespace CallFlow.Round

open FlowGraph (flaggedSet vertexSet ncard_edgeSet ncard_flaggedSet finite_edgeSet
  finite_flaggedSet)

variable {program : Program} {G : FlowGraph}

/-- The flags that the specification of a round sets: those of the results of calls and of the
parameters of functions, the receiver included, that lead to a callee. -/
def stepFlags (program : Program) (G : FlowGraph) : Set Vertex :=
  { v | G.Has v ∧ ¬ G.Flagged v ∧ Markable program v ∧ Wanted G.edgeSet v }

/-- The edges that the specification of a round adds: between a function and a call that it
reaches, into vertices of the graph that are flagged or lead to a callee. -/
def stepEdges (program : Program) (G : FlowGraph) : Set (Vertex × Vertex) :=
  { e | e ∉ G.edgeSet ∧ ∃ f c, Flows G.edgeSet (.func f) (.callee c) ∧
    Transfer program f c e.1 e.2 ∧ G.Has e.2 ∧ (G.Flagged e.2 ∨ Wanted G.edgeSet e.2) }

/-- The flags after the round are those of the step, whatever the order. -/
theorem flaggedSet_runIn (hreg : CalleesRegistered program G) (schedule : Schedule program) :
    (runIn schedule G).graph.flaggedSet = G.flaggedSet ∪ stepFlags program G := by
  obtain ⟨-, hflags, -⟩ := runIn_spec hreg schedule
  ext v
  refine (hflags v).trans ⟨fun h => ?_, fun h => ?_⟩
  · by_cases hold : G.Flagged v
    · exact Or.inl hold
    · obtain ⟨hmarkable, hwanted⟩ := h.resolve_left hold
      exact Or.inr ⟨hwanted.has hmarkable, hold, hmarkable, hwanted⟩
  · exact h.imp_right fun hnew => hnew.2.2

/-- The edges after the round are those of the step. -/
theorem edgeSet_runIn (hreg : CalleesRegistered program G) (schedule : Schedule program) :
    (runIn schedule G).graph.edgeSet = G.edgeSet ∪ stepEdges program G := by
  obtain ⟨-, -, hedges⟩ := runIn_spec hreg schedule
  ext ⟨a, b⟩
  refine (hedges a b).trans ⟨fun h => ?_, fun h => ?_⟩
  · by_cases hold : (a, b) ∈ G.edgeSet
    · exact Or.inl hold
    · obtain ⟨f, c, hflow, htransfer, hopen⟩ := h.resolve_left hold
      -- a target that is of interest is a vertex of the graph
      have hhas : G.Has b := hopen.elim FlowGraph.Flagged.has (Wanted.has htransfer.markable)
      exact Or.inr ⟨hold, f, c, hflow, htransfer, hhas, hopen⟩
  · exact h.imp_right fun ⟨_, f, c, hflow, htransfer, _, hopen⟩ => ⟨f, c, hflow, htransfer, hopen⟩

theorem disjoint_stepFlags : Disjoint G.flaggedSet (stepFlags program G) :=
  Set.disjoint_left.2 fun _ hold hnew => hnew.2.1 hold

theorem disjoint_stepEdges : Disjoint G.edgeSet (stepEdges program G) :=
  Set.disjoint_left.2 fun _ hold hnew => hnew.1 hold

/-- The counts of a round are those of the step. -/
theorem outcome_runIn (hreg : CalleesRegistered program G) (schedule : Schedule program) :
    (runIn schedule G).outcome =
      ⟨(stepEdges program G).ncard, (stepFlags program G).ncard⟩ := by
  have hcounts := Propagation.extends_runIn schedule G
  have hedges := edgeSet_runIn hreg schedule
  have hflags := flaggedSet_runIn hreg schedule
  -- the counter of the graph and that of the round both count the new edges
  have hedgeCount : (runIn schedule G).graph.edgeCount =
      G.edgeCount + (stepEdges program G).ncard := by
    rw [← ncard_edgeSet, ← ncard_edgeSet, hedges, Set.ncard_union_eq disjoint_stepEdges
      G.finite_edgeSet ((finite_edgeSet _).subset (hedges ▸ Set.subset_union_right))]
  have hflagCount : (runIn schedule G).graph.interestingCount =
      G.interestingCount + (stepFlags program G).ncard := by
    rw [← ncard_flaggedSet, ← ncard_flaggedSet, hflags, Set.ncard_union_eq disjoint_stepFlags
      G.finite_flaggedSet ((finite_flaggedSet _).subset (hflags ▸ Set.subset_union_right))]
  rw [hcounts.edgeCount] at hedgeCount
  rw [hcounts.interestingCount] at hflagCount
  exact congrArg₂ RoundOutcome.mk (Nat.add_left_cancel hedgeCount) (Nat.add_left_cancel hflagCount)

/-- The vertices after a round are those before and the sources of its edges. -/
theorem vertexSet_runIn (hreg : CalleesRegistered program G) (schedule : Schedule program) :
    (runIn schedule G).graph.vertexSet =
      G.vertexSet ∪ { v | ∃ w, (v, w) ∈ stepEdges program G } := by
  ext v
  refine (Propagation.has_runIn schedule G v).trans ?_
  rw [edgeSet_runIn hreg schedule]
  constructor
  · rintro (hold | ⟨w, hedge | hnew⟩)
    · exact Or.inl hold
    · exact Or.inl (FlowGraph.has_of_mem_edgeSet hedge).1
    · exact Or.inr ⟨w, hnew⟩
  · exact Or.imp_right fun ⟨w, hnew⟩ => ⟨w, Or.inr hnew⟩

/-- **A round is one simultaneous step.** It adds the edges and sets the flags that are told by the
graph at its start, takes nothing away, and counts both. A round that takes functions and calls in
another order ends with the same edges, flags, vertices and counts. -/
theorem run_simultaneous (hreg : CalleesRegistered program G) :
    let round := run program G
    G.edgeSet ⊆ round.graph.edgeSet ∧ round.graph.edgeSet \ G.edgeSet = stepEdges program G ∧
    G.flaggedSet ⊆ round.graph.flaggedSet ∧
      round.graph.flaggedSet \ G.flaggedSet = stepFlags program G ∧
    round.outcome = ⟨(stepEdges program G).ncard, (stepFlags program G).ncard⟩ ∧
    ∀ schedule : Schedule program,
      (runIn schedule G).graph.edgeSet = round.graph.edgeSet ∧
      (runIn schedule G).graph.flaggedSet = round.graph.flaggedSet ∧
      (runIn schedule G).graph.vertexSet = round.graph.vertexSet ∧
      (runIn schedule G).outcome = round.outcome := by
  intro round
  have hedges : round.graph.edgeSet = G.edgeSet ∪ stepEdges program G :=
    edgeSet_runIn hreg (.ascending program)
  have hflags : round.graph.flaggedSet = G.flaggedSet ∪ stepFlags program G :=
    flaggedSet_runIn hreg (.ascending program)
  have hvertices : round.graph.vertexSet = _ := vertexSet_runIn hreg (.ascending program)
  have hcounts : round.outcome = _ := outcome_runIn hreg (.ascending program)
  -- the ascending order is one of the orders
  refine ⟨hedges ▸ Set.subset_union_left, ?_, hflags ▸ Set.subset_union_left, ?_, hcounts,
    fun schedule => ⟨?_, ?_, ?_, ?_⟩⟩
  · rw [hedges, Set.union_sdiff_cancel_left (Set.disjoint_iff.1 disjoint_stepEdges)]
  · rw [hflags, Set.union_sdiff_cancel_left (Set.disjoint_iff.1 disjoint_stepFlags)]
  · rw [hedges, edgeSet_runIn hreg schedule]
  · rw [hflags, flaggedSet_runIn hreg schedule]
  · rw [hvertices, vertexSet_runIn hreg schedule]
  · rw [hcounts, outcome_runIn hreg schedule]

/-- Everything in descending order. -/
def descending (program : Program) : Schedule program where
  calls := program.callIds.reverse
  functions := program.functionIds.reverse
  turns _ reached := reached.reverse
  calls_perm := List.reverse_perm _
  functions_perm := List.reverse_perm _
  turns_perm _ reached := reached.reverse_perm

/-- In the example a round joins the argument to the parameter, which it flags. It does so too if
it begins with what is passed. -/
theorem run_simultaneous_example :
    CalleesRegistered Example.program Example.graph ∧
    (.arg Example.outer 1, .param Example.apply 1) ∈
      (run Example.program Example.graph).graph.edgeSet \ Example.graph.edgeSet ∧
    (.param Example.apply 1) ∈
      (run Example.program Example.graph).graph.flaggedSet \ Example.graph.flaggedSet ∧
    (runIn (descending Example.program) Example.graph).graph.edgeSet =
      (run Example.program Example.graph).graph.edgeSet := by
  obtain ⟨-, hedges, -, hflags, -, horder⟩ := run_simultaneous Example.calleesRegistered
  have hcalled : (.param Example.apply 1, .callee Example.inner) ∈ Example.graph.edgeSet := by
    simp [Example.edgeSet_graph]
  have hreached : (.func Example.apply, .callee Example.outer) ∈ Example.graph.edgeSet := by
    simp [Example.edgeSet_graph]
  -- the parameter is invoked, hence wanted at the start
  have hwanted : Wanted Example.graph.edgeSet (.param Example.apply 1) :=
    ⟨Example.inner, .single ⟨rfl, hcalled⟩⟩
  have hparam : Example.graph.Has (.param Example.apply 1) :=
    (FlowGraph.has_of_mem_edgeSet hcalled).1
  have hnew : (.arg Example.outer 1, .param Example.apply 1) ∉ Example.graph.edgeSet := by
    simp [Example.edgeSet_graph]
  refine ⟨Example.calleesRegistered, ?_, ?_, (horder (descending Example.program)).1⟩
  · rw [hedges]
    exact ⟨hnew, Example.apply, Example.outer, .single ⟨rfl, hreached⟩, Example.transfer, hparam,
      Or.inr hwanted⟩
  · rw [hflags]
    exact ⟨hparam, Example.not_flagged _, Example.transfer.markable, hwanted⟩

end CallFlow.Round
