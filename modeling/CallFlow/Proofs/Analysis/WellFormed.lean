import CallFlow.Proofs.Analysis.History

/-!
# Everything can be shown

In a well formed state vertices name what is there, so that each of them can be described. The call
graph has edges between calls and functions of the program only, so that each of them can be shown.
-/

namespace CallFlow

namespace FlowState.WellFormed

variable {s : FlowState} {files : List WalkedFile}

/-! ## Vertices -/

theorem exists_functionText (h : s.WellFormed files) {f : FunctionId} {function : Function}
    (hf : s.program.function? f = some function) :
    ∃ text, s.program.functionText? f = some text := by
  obtain ⟨path, hpath⟩ := (h.functions f function hf).placed.file
  simp [Program.functionText?, Program.functionPlace?, Program.placeText?, hf, hpath]

theorem exists_callPlace (h : s.WellFormed files) {c : CallId} {site : CallSite}
    (hc : s.program.call? c = some site) : ∃ text, s.program.callPlace? c = some text := by
  obtain ⟨path, hpath⟩ := (h.calls c site hc).placed.file
  simp [Program.callPlace?, Program.placeText?, hc, hpath]

/-- Every vertex can be described that names what is there. -/
theorem exists_describe (h : s.WellFormed files) {v : Vertex} (hv : s.Names v) :
    ∃ text, v.describe? s.program s.symbols = some text := by
  cases v with
  -- a function and what it returns are described by the function
  | func f | ret f =>
    obtain ⟨function, hf⟩ := hv
    obtain ⟨text, htext⟩ := h.exists_functionText hf
    simp [Vertex.describe?, htext]
  | param f slot =>
    obtain ⟨function, hf, -⟩ := hv
    obtain ⟨text, htext⟩ := h.exists_functionText hf
    simp [Vertex.describe?, htext]
  -- and these by the call
  | callee c | res c =>
    obtain ⟨site, hc⟩ := hv
    obtain ⟨text, htext⟩ := h.exists_callPlace hc
    simp [Vertex.describe?, htext]
  | arg c slot =>
    obtain ⟨site, hc, -⟩ := hv
    obtain ⟨text, htext⟩ := h.exists_callPlace hc
    simp [Vertex.describe?, htext]
  | var x =>
    obtain ⟨symbol, hx⟩ := hv
    simp [Vertex.describe?, hx]
  | expr key =>
    obtain ⟨path, hpath⟩ := hv
    simp [Vertex.describe?, hpath]
  | native _ | prop _ | unknown => exact ⟨_, rfl⟩

/-- **Describing a vertex does not fail.** -/
theorem exists_describe_id (h : s.WellFormed files) {id : VertexId}
    (hid : id.index < s.graph.vertexCount) :
    ∃ text, s.graph.describe? s.program s.symbols id = some text := by
  obtain ⟨v, hv⟩ := FlowGraph.exists_find?_of_lt hid
  obtain ⟨text, htext⟩ := h.exists_describe (h.vertices v ⟨id, hv⟩)
  refine ⟨text, ?_⟩
  rw [FlowGraph.describe?, (s.graph.find?_eq_some_iff v id).1 hv, Option.bind_some, htext]

/-! ## Edges of the call graph -/

theorem calleesRegistered (h : s.WellFormed files) : CalleesRegistered s.program s.graph :=
  fun c hc => h.vertices (.callee c) hc

/-- An edge of the call graph can be shown. -/
theorem exists_edge (h : s.WellFormed files) {c : CallId} {callee : Callee}
    (hc : ∃ site, s.program.call? c = some site) (hcallee : s.Names callee.vertex) :
    ∃ edge, CallEdge.of s.program c callee = .ok edge := by
  obtain ⟨site, hsite⟩ := hc
  have hplaced := (h.calls c site hsite).placed
  refine CallEdge.exists_of hsite hplaced.file hplaced.enclosing ?_
  rintro f rfl
  obtain ⟨function, hf⟩ := hcallee
  exact ⟨function, hf, (h.functions f function hf).placed.file⟩

/-- **Showing the call graph does not fail.** Each edge is shown once, in the order of the edges. -/
theorem exists_render (h : s.WellFormed files) :
    let calls := CallGraph.extract s.program s.graph
    ∃ shown, calls.render s.program = .ok shown ∧
      List.Forall₂ (fun e edge => CallEdge.of s.program e.1 e.2 = .ok edge) calls.edges shown := by
  refine CallGraph.exists_mapM fun e he => ?_
  obtain ⟨hc, hcallee⟩ := CallGraph.known_of_mem_edges h.calleesRegistered he
  exact h.exists_edge hc (h.vertices _ hcallee)

end FlowState.WellFormed

/-! ## All histories -/

/-- An analysis extracts its call graph from the flow that it ends with. -/
theorem Analysis.calls_eq_extract (options : AnalysisOptions) (files : List SourceFile) :
    (run options files).calls =
      .extract (run options files).flow.program (run options files).flow.graph := by
  rw [calls_run, program_run, graph_run]
  rfl

namespace History

/-- **Every history leads to a well formed state.** Its vertices can be described, and its call
graph can be shown. An analysis is a history, hence its edges can be shown. -/
theorem wellFormed_after :
    (∀ steps,
      let h := after steps
      h.flow.WellFormed h.files ∧
      (∀ id : VertexId, id.index < h.flow.graph.vertexCount →
        ∃ text, h.flow.graph.describe? h.flow.program h.flow.symbols id = some text) ∧
      let calls := CallGraph.extract h.flow.program h.flow.graph
      ∃ shown, calls.render h.flow.program = .ok shown ∧
        List.Forall₂ (fun e edge => CallEdge.of h.flow.program e.1 e.2 = .ok edge)
          calls.edges shown) ∧
    ∀ options files,
      let analysis := Analysis.run options files
      (∃ steps, (after steps).flow = analysis.flow) ∧
      ∃ shown, analysis.edges = .ok shown ∧
        List.Forall₂ (fun e edge => CallEdge.of analysis.flow.program e.1 e.2 = .ok edge)
          analysis.calls.edges shown := by
  refine ⟨fun steps => ?_, fun options files => ?_⟩
  · have hwell := (valid_after steps).wellFormed
    exact ⟨hwell, fun id hid => hwell.exists_describe_id hid, hwell.exists_render⟩
  · obtain ⟨whats, n, hrun⟩ := exists_after_eq_run options files
    -- an analysis is a history: it builds first and then runs rounds
    let steps : List Step := whats.map .build ++ List.replicate n .round
    have hshown := (valid_after steps).wellFormed.exists_render
    rw [hrun, ← Analysis.calls_eq_extract] at hshown
    exact ⟨⟨steps, hrun⟩, hshown⟩

/-- The last vertex after a round, the result of the outer call, can be described. -/
theorem wellFormed_after_example :
    let flow := (after (linked.map .build ++ [.round])).flow
    (⟨15⟩ : VertexId).index < flow.graph.vertexCount ∧
    flow.graph.vertex? ⟨15⟩ = some (.res ⟨1⟩) ∧
    ∃ text, flow.graph.describe? flow.program flow.symbols ⟨15⟩ = some text := by
  have hid : (⟨15⟩ : VertexId).index <
      (after (linked.map .build ++ [.round])).flow.graph.vertexCount := by decide +kernel
  exact ⟨hid, by decide +kernel, (wellFormed_after.1 _).2.1 ⟨15⟩ hid⟩

end History

end CallFlow
