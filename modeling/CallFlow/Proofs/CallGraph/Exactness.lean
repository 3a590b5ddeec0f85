import CallFlow.Proofs.CallGraph.Extraction
import CallFlow.Proofs.Propagation.Round

/-!
# What an extracted call graph says

A call graph lists for each call the functions that reach it, and has counts and views of all lists
together. The callees of a call stand in the order of their vertices, and the views agree with the
lists: the count that is kept while callees are found, the enumerations of all edges, and the calls
that are reported as unresolved.
-/

namespace CallFlow.CallGraph

variable {graph : FlowGraph} {program : Program}

/-! ## The callees of one call -/

/-- The graph has both callees, the first one under the lesser number. -/
def Before (graph : FlowGraph) (a b : Callee) : Prop :=
  ∃ i j, graph.find? a.vertex = some i ∧ graph.find? b.vertex = some j ∧ i.index < j.index

theorem Before.ne {a b : Callee} (h : Before graph a b) : a ≠ b := by
  rintro rfl
  obtain ⟨i, j, hi, hj, hlt⟩ := h
  rw [hi] at hj
  obtain rfl := Option.some.inj hj
  exact Nat.lt_irrefl _ hlt

theorem pairwise_vertexIds (graph : FlowGraph) :
    graph.vertexIds.Pairwise fun i j => i.index < j.index :=
  List.pairwise_map.2 (List.pairwise_lt_range.imp fun h => h)

/-- Callees are listed in the order of their vertices. -/
theorem pairwise_callees_extract (program : Program) (graph : FlowGraph) (c : CallId) :
    ((extract program graph).callees c).toList.Pairwise (Before graph) := by
  cases hc : program.call? c with
  | none =>
    rw [callees_extract_of_none program graph hc]
    exact .nil
  | some site =>
    rw [callees_extract program graph hc, List.pairwise_filterMap]
    refine (pairwise_vertexIds graph).imp fun {i j} hlt a ha b hb => ?_
    exact ⟨i, j, (graph.find?_eq_some_iff _ i).2 (calledBy_eq_some_iff.1 ha).1,
      (graph.find?_eq_some_iff _ j).2 (calledBy_eq_some_iff.1 hb).1, hlt⟩

theorem nodup_callees_extract (program : Program) (graph : FlowGraph) (c : CallId) :
    ((extract program graph).callees c).toList.Nodup :=
  (pairwise_callees_extract program graph c).imp Before.ne

theorem Callee.vertex_ne_callee (callee : Callee) (c : CallId) : callee.vertex ≠ .callee c := by
  cases callee <;> simp [Callee.vertex]

/-- What flows from a function to the callee of a call takes a path between their numbers. -/
theorem flows_callee_iff {callee : Callee} {c : CallId} :
    Flows graph.edgeSet callee.vertex (.callee c) ↔
      ∃ source target, graph.find? callee.vertex = some source ∧
        graph.find? (.callee c) = some target ∧ graph.Path Vertex.isTracked source target := by
  constructor
  · intro hflow
    obtain ⟨source, hsource⟩ := FlowGraph.has_of_flows_ne hflow (Callee.vertex_ne_callee callee c)
    obtain ⟨target, htarget⟩ := FlowGraph.has_of_flows ⟨source, hsource⟩ hflow
    exact ⟨source, target, hsource, htarget, (FlowGraph.path_iff_flows hsource htarget).2 hflow⟩
  · rintro ⟨source, target, hsource, htarget, hpath⟩
    exact (FlowGraph.path_iff_flows hsource htarget).1 hpath

/-! ## The count -/

/-- The callees of all calls together. -/
def total (calls : CallGraph) : Nat := (calls.sites.toList.map Array.size).sum

/-- The count goes up with each callee that is listed. -/
theorem total_push (calls : CallGraph) (call : CallId) (callee : Callee)
    (h : calls.edgeCount = calls.total) :
    (calls.push call callee).edgeCount = (calls.push call callee).total := by
  rw [push]
  split
  · next hlt =>
    -- the list of the call is one longer, all others stay
    obtain ⟨before, site, after, hsites, -, hmodify⟩ :=
      List.exists_of_modify (fun site : Array Callee => site.push callee)
        (i := call.index) (l := calls.sites.toList) hlt
    rw [total, hsites] at h
    rw [total, Array.toList_modify, hmodify]
    simp only [List.map_append, List.map_cons, List.sum_append, List.sum_cons,
      Array.size_push] at h ⊢
    omega
  · exact h

/-- It does so for each call that a function reaches. -/
theorem total_addCallee (graph : FlowGraph) (callee : Callee) (calls : CallGraph)
    (reached : List VertexId) (h : calls.edgeCount = calls.total) :
    (addCallee graph callee calls reached).edgeCount =
      (addCallee graph callee calls reached).total := by
  induction reached generalizing calls with
  | nil => exact h
  | cons v reached ih =>
    rw [addCallee, List.foldl_cons]
    refine ih _ ?_
    split
    · exact total_push calls _ callee h
    · exact h

/-- A vertex that is no function is passed by. -/
theorem total_addSource (graph : FlowGraph) (state : CallGraph × Reachability) (id : VertexId)
    (h : state.1.edgeCount = state.1.total) :
    (addSource graph state id).1.edgeCount = (addSource graph state id).1.total := by
  rw [addSource]
  split
  · exact total_addCallee graph _ state.1 _ h
  · exact h

/-- The count that extraction keeps is the number of callees that it has found. -/
theorem total_extract (program : Program) (graph : FlowGraph) :
    (extract program graph).edgeCount = (extract program graph).total := by
  suffices h : ∀ (ids : List VertexId) (state : CallGraph × Reachability),
      state.1.edgeCount = state.1.total →
        (ids.foldl (addSource graph) state).1.edgeCount =
          (ids.foldl (addSource graph) state).1.total by
    refine h graph.vertexIds _ ?_
    simp [start, total]
  intro ids
  induction ids with
  | nil => exact fun _ h => h
  | cons id ids ih => exact fun state h => ih _ (total_addSource graph state id h)

/-! ## All edges -/

theorem map_callees_range (calls : CallGraph) :
    (List.range calls.sites.size).map (fun k => calls.callees ⟨k⟩) = calls.sites.toList := by
  refine List.ext_getElem (by simp) fun k hk hk' => ?_
  rw [List.length_map, List.length_range] at hk
  simp [callees, Array.getD_eq_getD_getElem?, hk]

theorem total_eq (calls : CallGraph) :
    calls.total =
      ((List.range calls.sites.size).map fun k => (calls.callees ⟨k⟩).size).sum := by
  rw [total, ← map_callees_range, List.map_map]
  rfl

/-- Visiting all callees is working through the list of edges. -/
theorem forEach_eq_foldl {σ : Type} (calls : CallGraph) (visit : σ → CallId → Callee → σ)
    (state : σ) :
    calls.forEach visit state = calls.edges.foldl (fun state e => visit state e.1 e.2) state := by
  simp only [forEach, edges, List.foldl_flatMap, List.foldl_map, Array.foldl_toList]

/-- The edges are enumerated call by call, and for each call in the order of its callees. -/
theorem edges_extract (program : Program) (graph : FlowGraph) :
    (extract program graph).edges = program.callIds.flatMap fun c =>
      ((extract program graph).callees c).toList.map fun callee => (c, callee) := by
  rw [edges, size_sites_extract, Program.callIds, List.flatMap_map]

/-- No edge is enumerated twice. -/
theorem nodup_edges_extract (program : Program) (graph : FlowGraph) :
    (extract program graph).edges.Nodup := by
  rw [edges_extract]
  refine List.nodup_flatMap.2 ⟨fun c _ => ?_, (Round.nodup_callIds program).imp fun {c d} hcd => ?_⟩
  · exact (nodup_callees_extract program graph c).map fun _ _ h => (Prod.mk.inj h).2
  · intro e hc hd
    obtain ⟨_, -, rfl⟩ := List.mem_map.1 hc
    obtain ⟨_, -, he⟩ := List.mem_map.1 hd
    exact hcd (Prod.mk.inj he).1.symm

theorem edgeCount_extract (program : Program) (graph : FlowGraph) :
    (extract program graph).edgeCount =
      (program.callIds.map fun c => ((extract program graph).callees c).size).sum := by
  rw [total_extract, total_eq, size_sites_extract, Program.callIds, List.map_map]
  rfl

/-- The count is the number of edges. -/
theorem length_edges_extract (program : Program) (graph : FlowGraph) :
    (extract program graph).edges.length = (extract program graph).edgeCount := by
  simp only [edges_extract, edgeCount_extract, List.length_flatMap, List.length_map,
    Array.length_toList]

theorem unresolvedCalls_extract (program : Program) (graph : FlowGraph) :
    (extract program graph).unresolvedCalls =
      program.callIds.filter fun c => ((extract program graph).callees c).isEmpty := by
  simp only [unresolvedCalls, isResolved, size_sites_extract, Bool.not_not]
  rfl

/-- **Extraction is exact.** A call of the program lists the functions, written or built in, from
whose vertices a path leads to its callee, each once and by ascending number. The count is the
length of all lists, the two enumerations go through every call with each of its callees once and
in call order, and a call is unresolved exactly if its list is empty. -/
theorem extract_exact (program : Program) (graph : FlowGraph) :
    let calls := extract program graph
    (∀ c ∈ program.callIds,
      (∀ callee, callee ∈ calls.callees c ↔
        ∃ source target, graph.find? callee.vertex = some source ∧
          graph.find? (.callee c) = some target ∧ graph.Path Vertex.isTracked source target) ∧
      (calls.callees c).toList.Nodup ∧ (calls.callees c).toList.Pairwise (Before graph)) ∧
    calls.edgeCount = (program.callIds.map fun c => (calls.callees c).size).sum ∧
    calls.edges = program.callIds.flatMap (fun c =>
      (calls.callees c).toList.map fun callee => (c, callee)) ∧
    calls.edges.Nodup ∧
    (∀ (σ : Type) (visit : σ → CallId → Callee → σ) (state : σ),
      calls.forEach visit state =
        calls.edges.foldl (fun state e => visit state e.1 e.2) state) ∧
    calls.unresolvedCalls = program.callIds.filter (fun c => (calls.callees c).isEmpty) ∧
    ∀ c ∈ program.callIds, calls.isResolved c = true ↔ c ∉ calls.unresolvedCalls := by
  intro calls
  have hunresolved := unresolvedCalls_extract program graph
  refine ⟨fun c hc => ⟨fun callee => ?_, nodup_callees_extract program graph c,
    pairwise_callees_extract program graph c⟩, edgeCount_extract program graph,
    edges_extract program graph, nodup_edges_extract program graph,
    fun σ visit state => forEach_eq_foldl calls visit state, hunresolved, fun c hc => ?_⟩
  · obtain ⟨site, hcall⟩ := (Round.mem_callIds c).1 hc
    rw [← flows_callee_iff, ← mem_filterMap_calledBy, ← callees_extract program graph hcall]
    exact Array.mem_toList_iff.symm
  · rw [hunresolved, List.mem_filter, isResolved]
    simp [hc, calls]

/-- A function and a built-in one flow into one call, another call has no callee. -/
theorem extract_exact_example :
    let graph := (((FlowGraph.empty.connect (.func Example.passed) (.prop "f")).2.connect
      (.native "Math_log") (.prop "f")).2.connect (.prop "f") (.callee Example.outer)).2
    let calls := extract Example.program graph
    Example.outer ∈ Example.program.callIds ∧ Example.inner ∈ Example.program.callIds ∧
      .function Example.passed ∈ calls.callees Example.outer ∧
      .native "Math_log" ∈ calls.callees Example.outer ∧
      calls.isResolved Example.inner = false ∧ Example.inner ∈ calls.unresolvedCalls := by
  intro graph calls
  obtain ⟨hcallees, -, -, -, -, hunresolved, hresolved⟩ := extract_exact Example.program graph
  have houter : Example.outer ∈ Example.program.callIds := by decide
  have hinner : Example.inner ∈ Example.program.callIds := by decide
  have hedges : graph.edgeSet = {(.prop "f", .callee Example.outer),
      (.native "Math_log", .prop "f"), (.func Example.passed, .prop "f")} := by
    simp [graph, FlowGraph.edgeSet_connect]
  have hcall : Flows graph.edgeSet (.prop "f") (.callee Example.outer) :=
    .single ⟨rfl, by simp [hedges]⟩
  -- no edge leads into the callee of the other call
  have hnone : calls.callees Example.inner = #[] := by
    refine Array.eq_empty_iff_forall_not_mem.2 fun callee hcallee => ?_
    have hflow := flows_callee_iff.2 (((hcallees _ hinner).1 callee).1 hcallee)
    rcases Relation.ReflTransGen.cases_tail hflow with heq | ⟨v, -, -, hv⟩
    · exact Callee.vertex_ne_callee callee _ heq.symm
    · simp [hedges, Example.inner, Example.outer] at hv
  have hmem : Example.inner ∈ calls.unresolvedCalls := by
    rw [hunresolved, List.mem_filter]
    exact ⟨hinner, by rw [hnone]; rfl⟩
  refine ⟨houter, hinner, ((hcallees _ houter).1 _).2 (flows_callee_iff.1 ?_),
    ((hcallees _ houter).1 _).2 (flows_callee_iff.1 ?_), ?_, hmem⟩
  · exact .head ⟨rfl, by simp [hedges, Callee.vertex]⟩ hcall
  · exact .head ⟨rfl, by simp [hedges, Callee.vertex]⟩ hcall
  · exact Bool.eq_false_iff.2 fun h => (hresolved _ hinner).1 h hmem

end CallFlow.CallGraph
