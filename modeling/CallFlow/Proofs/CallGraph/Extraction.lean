import CallFlow.CallGraph.Basic
import CallFlow.Proofs.Flow.Edges
import CallFlow.Proofs.Flow.Snapshot
import CallFlow.Proofs.Propagation.Rules

/-!
# Extraction is exact

The functions, written or built in, take their turns in the order of their vertices. Each one is
given to the calls that it reaches, at most once to any, so that the callees of a call are the
list `calledBy` cuts out of the vertices.
-/

namespace CallFlow.CallGraph

variable {graph : FlowGraph} {program : Program}

/-- The function whose vertex has this number, if it flows into the callee of the call. -/
noncomputable def calledBy (graph : FlowGraph) (c : CallId) (id : VertexId) : Option Callee :=
  open Classical in
  ((graph.vertex? id).bind Callee.ofVertex?).filter fun callee =>
    Flows graph.edgeSet callee.vertex (.callee c)

theorem ofVertex?_eq_some_iff {v : Vertex} {callee : Callee} :
    Callee.ofVertex? v = some callee ↔ v = callee.vertex := by
  cases v <;> cases callee <;> simp [Callee.ofVertex?, Callee.vertex]

theorem calledBy_eq_some_iff {c : CallId} {id : VertexId} {callee : Callee} :
    calledBy graph c id = some callee ↔
      graph.vertex? id = some callee.vertex ∧ Flows graph.edgeSet callee.vertex (.callee c) := by
  simp [calledBy, Option.filter_eq_some_iff, Option.bind_eq_some_iff, ofVertex?_eq_some_iff]

/-- A callee is appended to those of the call that it is given to. -/
theorem push_spec (calls : CallGraph) (call : CallId) (callee : Callee) :
    (calls.push call callee).sites.size = calls.sites.size ∧
      ∀ c : CallId, c.index < calls.sites.size →
        ((calls.push call callee).callees c).toList =
          (calls.callees c).toList ++ if call = c then [callee] else [] := by
  rw [push]
  split
  · refine ⟨Array.size_modify .., fun c hc => ?_⟩
    simp only [callees, Array.getD_eq_getD_getElem?, Array.getElem?_modify]
    by_cases hsame : call = c
    · subst hsame
      simp [hc]
    · have hne : call.index ≠ c.index := fun h => hsame (by cases call; cases c; congr)
      simp [hsame, hne]
  -- a call that is not listed gets no callee
  · next hout =>
    refine ⟨rfl, fun c hc => ?_⟩
    rw [if_neg (by rintro rfl; exact hout hc), List.append_nil]

/-- A vertex of the list appends the function to the call whose callee it is. -/
theorem addCallee_singleton (graph : FlowGraph) (callee : Callee) (calls : CallGraph)
    (v : VertexId) :
    (addCallee graph callee calls [v]).sites.size = calls.sites.size ∧
      ∀ c : CallId, c.index < calls.sites.size →
        ((addCallee graph callee calls [v]).callees c).toList =
          (calls.callees c).toList ++
            if graph.vertex? v = some (.callee c) then [callee] else [] := by
  simp only [addCallee, List.foldl_cons, List.foldl_nil]
  split
  · next call hcall =>
    obtain ⟨x, hx, hxc⟩ := Option.bind_eq_some_iff.1 hcall
    obtain rfl := Vertex.calleeOf?_eq_some_iff.1 hxc
    simpa [hx] using push_spec calls call callee
  · next hnone =>
    refine ⟨rfl, fun c _ => ?_⟩
    rw [if_neg, List.append_nil]
    intro h
    simp [h, Vertex.calleeOf?] at hnone

/-- One function is appended to a call as often as the callee vertex of the call is listed. -/
theorem addCallee_spec (graph : FlowGraph) (callee : Callee) (calls : CallGraph)
    (reached : List VertexId) :
    (addCallee graph callee calls reached).sites.size = calls.sites.size ∧
      ∀ c : CallId, c.index < calls.sites.size →
        ((addCallee graph callee calls reached).callees c).toList =
          (calls.callees c).toList ++
            List.replicate (reached.countP fun v => graph.vertex? v = some (.callee c)) callee := by
  induction reached generalizing calls with
  | nil => exact ⟨rfl, fun c _ => by simp [addCallee]⟩
  | cons v reached ih =>
    obtain ⟨hsize, hget⟩ := addCallee_singleton graph callee calls v
    obtain ⟨hsize', hget'⟩ := ih (addCallee graph callee calls [v])
    have hcons : addCallee graph callee calls (v :: reached) =
        addCallee graph callee (addCallee graph callee calls [v]) reached := rfl
    -- the vertices that are reached are taken one by one
    rw [hcons]
    refine ⟨hsize'.trans hsize, fun c hc => ?_⟩
    rw [hget' c (hsize ▸ hc), hget c hc, List.append_assoc, List.countP_cons]
    split
    · next h => simp [h, List.replicate_succ]
    · next h => simp [h]

open Classical in
/-- An answer has the callee vertex of a call once or never. -/
theorem countP_callee_query {snapshot : Reachability}
    (hs : snapshot.Describes graph Vertex.isTracked) {id : VertexId} {v : Vertex}
    (hid : graph.find? v = some id) (c : CallId) :
    (snapshot.query id).1.countP (fun w => graph.vertex? w = some (.callee c)) =
      if Flows graph.edgeSet v (.callee c) then 1 else 0 := by
  obtain ⟨-, hnodup, hmem⟩ := hs.query_graph id
  split
  -- the call has one vertex, and what is reached is listed once
  · next hflow =>
    obtain ⟨w, hw⟩ := FlowGraph.has_of_flows ⟨id, hid⟩ hflow
    have hlisted := (hmem w).2 ((FlowGraph.path_iff_flows hid hw).2 hflow)
    rw [← List.count_eq_one_of_mem hnodup hlisted, List.count]
    refine List.countP_congr fun u _ => ?_
    rw [decide_eq_true_iff, ← graph.find?_eq_some_iff, hw, Option.some.injEq, beq_iff_eq]
    exact eq_comm
  -- no vertex of the call is reached
  · next hflow =>
    rw [List.countP_eq_zero]
    intro w hw hcallee
    have hw' := (graph.find?_eq_some_iff _ w).2 (of_decide_eq_true hcallee)
    exact hflow ((FlowGraph.path_iff_flows hid hw').1 ((hmem w).1 hw))

/-- **The turn of a vertex.** A function is appended to the callees of exactly the calls into
whose callees it flows. -/
theorem addSource_spec {state : CallGraph × Reachability}
    (hs : state.2.Describes graph Vertex.isTracked) (id : VertexId) :
    (addSource graph state id).2.Describes graph Vertex.isTracked ∧
      (addSource graph state id).1.sites.size = state.1.sites.size ∧
      ∀ c : CallId, c.index < state.1.sites.size →
        ((addSource graph state id).1.callees c).toList =
          (state.1.callees c).toList ++ (calledBy graph c id).toList := by
  rw [addSource]
  cases hsource : (graph.vertex? id).bind Callee.ofVertex? with
  -- a vertex that is no function is passed by
  | none => exact ⟨hs, rfl, fun c _ => by simp [calledBy, hsource]⟩
  | some callee =>
    obtain ⟨x, hx, hcallee⟩ := Option.bind_eq_some_iff.1 hsource
    obtain rfl := ofVertex?_eq_some_iff.1 hcallee
    have hfind := (graph.find?_eq_some_iff _ id).2 hx
    obtain ⟨hsize, hget⟩ := addCallee_spec graph callee state.1 (state.2.query id).1
    refine ⟨(hs.query_graph id).1, hsize, fun c hc => (hget c hc).trans (congrArg _ ?_)⟩
    rw [countP_callee_query hs hfind]
    by_cases hflow : Flows graph.edgeSet callee.vertex (.callee c)
    · simp [calledBy, hsource, Option.filter, hflow]
    · simp [calledBy, hsource, Option.filter, hflow]

/-- The vertices take their turns, each behind those before it. -/
theorem foldl_addSource_spec (ids : List VertexId) {state : CallGraph × Reachability}
    (hs : state.2.Describes graph Vertex.isTracked) :
    (ids.foldl (addSource graph) state).1.sites.size = state.1.sites.size ∧
      ∀ c : CallId, c.index < state.1.sites.size →
        ((ids.foldl (addSource graph) state).1.callees c).toList =
          (state.1.callees c).toList ++ ids.filterMap (calledBy graph c) := by
  induction ids generalizing state with
  | nil => exact ⟨rfl, fun c _ => by simp⟩
  | cons id ids ih =>
    obtain ⟨hs', hsize, hget⟩ := addSource_spec hs id
    obtain ⟨hsize', hget'⟩ := ih hs'
    refine ⟨hsize'.trans hsize, fun c hc => ?_⟩
    rw [List.foldl_cons, hget' c (hsize ▸ hc), hget c hc, List.append_assoc, List.filterMap_cons]
    -- a vertex is cut out or passed by
    cases calledBy graph c id <;> rfl

/-- Extraction starts without callees and with a new snapshot. -/
theorem describes_start (program : Program) (graph : FlowGraph) :
    (start program, graph.reachability Vertex.isTracked).2.Describes graph Vertex.isTracked :=
  Reachability.describes_reachability graph Vertex.isTracked

/-- There is a site for every call. -/
theorem size_sites_extract (program : Program) (graph : FlowGraph) :
    (extract program graph).sites.size = program.calls.size := by
  obtain ⟨hsize, -⟩ := foldl_addSource_spec graph.vertexIds (describes_start program graph)
  rw [extract, hsize]
  exact Array.size_replicate

/-- **Extraction.** The callees of a call are the functions that flow into its callee, in the
order of their vertices. -/
theorem callees_extract (program : Program) (graph : FlowGraph) {c : CallId} {site : CallSite}
    (hc : program.call? c = some site) :
    ((extract program graph).callees c).toList =
      graph.vertexIds.filterMap (calledBy graph c) := by
  have hlt : c.index < program.calls.size := (Array.getElem?_eq_some_iff.1 hc).1
  obtain ⟨-, hget⟩ := foldl_addSource_spec graph.vertexIds
    (describes_start program graph)
  have hc := hget c (by simpa [start] using hlt)
  rw [extract, hc]
  simp [callees, start, Array.getD_eq_getD_getElem?, hlt]

/-- A call that the program does not have has no callees. -/
theorem callees_extract_of_none (program : Program) (graph : FlowGraph) {c : CallId}
    (hc : program.call? c = none) : (extract program graph).callees c = #[] := by
  have hge : program.calls.size ≤ c.index := Array.getElem?_eq_none_iff.1 hc
  rw [callees, Array.getD_eq_getD_getElem?, Array.getElem?_eq_none]
  · rfl
  · rw [size_sites_extract]
    exact hge

/-- What flows to a call is a vertex of the graph, so that its turn comes. -/
theorem mem_filterMap_calledBy {c : CallId} {callee : Callee} :
    callee ∈ graph.vertexIds.filterMap (calledBy graph c) ↔
      Flows graph.edgeSet callee.vertex (.callee c) := by
  rw [List.mem_filterMap]
  constructor
  · rintro ⟨id, -, hid⟩
    exact (calledBy_eq_some_iff.1 hid).2
  · intro hflow
    have hne : callee.vertex ≠ .callee c := by cases callee <;> simp [Callee.vertex]
    obtain ⟨id, hid⟩ := FlowGraph.has_of_flows_ne hflow hne
    refine ⟨id, ?_, calledBy_eq_some_iff.2 ⟨(graph.find?_eq_some_iff _ id).1 hid, hflow⟩⟩
    exact List.mem_map.2 ⟨id.index, List.mem_range.2 (FlowGraph.lt_of_find? hid), rfl⟩

/-- The callees of a call are exactly the functions that flow into its callee. -/
theorem mem_callees_extract {c : CallId} {callee : Callee}
    (hreg : CalleesRegistered program graph) :
    callee ∈ (extract program graph).callees c ↔
      Flows graph.edgeSet callee.vertex (.callee c) := by
  cases hc : program.call? c with
  | some site =>
    rw [← Array.mem_toList_iff, callees_extract program graph hc]
    exact mem_filterMap_calledBy
  | none =>
    rw [callees_extract_of_none program graph hc]
    refine ⟨fun h => by simp at h, fun hflow => ?_⟩
    -- flow into its callee would put the callee vertex of an unknown call into the graph
    have hne : callee.vertex ≠ .callee c := by cases callee <;> simp [Callee.vertex]
    obtain ⟨site, hsite⟩ := hreg c
      (FlowGraph.has_of_flows (FlowGraph.has_of_flows_ne hflow hne) hflow)
    rw [hc] at hsite
    cases hsite

end CallFlow.CallGraph
