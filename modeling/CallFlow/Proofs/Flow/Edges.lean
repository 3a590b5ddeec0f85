import CallFlow.Proofs.Flow.Paths
import Mathlib.Data.Set.Insert

/-!
# Edges between vertices

A flow graph as a set of edges between vertices, without their numbers. `Flows E a b` says that a
value may get from `a` to `b` by edges of `E`, none of which leaves the unknown value.
-/

namespace CallFlow

/-- A value gets from one vertex to another by zero or more edges out of tracked vertices. -/
abbrev Flows (E : Set (Vertex × Vertex)) : Vertex → Vertex → Prop :=
  Relation.ReflTransGen fun a b => a.isTracked = true ∧ (a, b) ∈ E

theorem Flows.mono {E E' : Set (Vertex × Vertex)} (h : E ⊆ E') {a b : Vertex} (hab : Flows E a b) :
    Flows E' a b :=
  Relation.ReflTransGen.mono (fun _ _ hstep => ⟨hstep.1, h hstep.2⟩) _ _ hab

theorem Vertex.calleeOf?_eq_some_iff {v : Vertex} {c : CallId} :
    v.calleeOf? = some c ↔ v = .callee c := by
  cases v <;> simp [Vertex.calleeOf?]

namespace FlowGraph

/-- The edges of a graph. -/
def edgeSet (graph : FlowGraph) : Set (Vertex × Vertex) :=
  { e | graph.containsEdge e.1 e.2 = true }

/-- The graph has the vertex. -/
def Has (graph : FlowGraph) (v : Vertex) : Prop := ∃ id, graph.find? v = some id

/-- The graph has the vertex and its flag is set. -/
def Flagged (graph : FlowGraph) (v : Vertex) : Prop :=
  ∃ id, graph.find? v = some id ∧ graph.isInteresting id = true

variable {graph : FlowGraph}

theorem Flagged.has {v : Vertex} (h : graph.Flagged v) : graph.Has v :=
  h.imp fun _ => And.left

/-- An edge joins the numbers of its ends. -/
theorem mem_edgeSet {a b : Vertex} : (a, b) ∈ graph.edgeSet ↔
    ∃ s t, graph.find? a = some s ∧ graph.find? b = some t ∧ graph.hasEdge s t = true := by
  show graph.containsEdge a b = true ↔ _
  rw [containsEdge]
  cases ha : graph.find? a with
  | none => simp
  | some s =>
    cases hb : graph.find? b with
    | none => simp
    | some t => simp

theorem mem_edgeSet_of_find? {a b : Vertex} {s t : VertexId} (ha : graph.find? a = some s)
    (hb : graph.find? b = some t) : (a, b) ∈ graph.edgeSet ↔ graph.hasEdge s t = true := by
  rw [mem_edgeSet]
  simp [ha, hb]

theorem has_of_mem_edgeSet {a b : Vertex} (h : (a, b) ∈ graph.edgeSet) :
    graph.Has a ∧ graph.Has b := by
  obtain ⟨s, t, ha, hb, -⟩ := mem_edgeSet.1 h
  exact ⟨⟨s, ha⟩, ⟨t, hb⟩⟩

/-- What flows out of a vertex of the graph ends in one. -/
theorem has_of_flows {a b : Vertex} (ha : graph.Has a) (h : Flows graph.edgeSet a b) :
    graph.Has b := by
  rcases Relation.ReflTransGen.cases_tail h with rfl | ⟨c, -, -, hcb⟩
  · exact ha
  · exact (has_of_mem_edgeSet hcb).2

/-- A vertex that flows somewhere else is one of the graph. -/
theorem has_of_flows_ne {a b : Vertex} (h : Flows graph.edgeSet a b) (hne : a ≠ b) :
    graph.Has a := by
  rcases Relation.ReflTransGen.cases_head h with rfl | ⟨c, ⟨-, hac⟩, -⟩
  · exact absurd rfl hne
  · exact (has_of_mem_edgeSet hac).1

/-- Paths between numbers are flow between their vertices. -/
theorem path_iff_flows {a b : Vertex} {s t : VertexId} (ha : graph.find? a = some s)
    (hb : graph.find? b = some t) :
    graph.Path Vertex.isTracked s t ↔ Flows graph.edgeSet a b := by
  constructor
  -- each step of a path is an edge between the vertices of its numbers
  · intro h
    induction h generalizing b with
    | refl =>
      rw [find?_inj ha hb]
    | @tail u v _ huv ih =>
      obtain ⟨hedge, x, hx, htracked⟩ := huv
      have hxu := (graph.find?_eq_some_iff x u).2 hx
      exact (ih hxu).tail ⟨htracked, (mem_edgeSet_of_find? hxu hb).2 hedge⟩
  -- and each edge is a step between the numbers of its ends
  · intro h
    induction h generalizing t with
    | refl =>
      rw [ha] at hb
      rw [Option.some.inj hb]
    | @tail x y _ hxy ih =>
      obtain ⟨htracked, hedge⟩ := hxy
      obtain ⟨u, v, hu, hv, huv⟩ := mem_edgeSet.1 hedge
      rw [hb] at hv
      rw [← Option.some.inj hv] at huv
      exact (ih hu).tail ⟨huv, x, (graph.find?_eq_some_iff x u).1 hu, htracked⟩

/-! ## What growing does to the edges and the flags -/

/-- A flag marks one vertex. -/
theorem flagged_flag {v : Vertex} {id : VertexId} (hv : graph.find? v = some id) (w : Vertex) :
    (graph.flag id).Flagged w ↔ graph.Flagged w ∨ w = v := by
  constructor
  · rintro ⟨j, hj, hflag⟩
    rw [find?_flag] at hj
    rcases (graph.isInteresting_flag id j).1 hflag with h | ⟨rfl, -⟩
    · exact Or.inl ⟨j, hj, h⟩
    · exact Or.inr (find?_inj hj hv)
  · rintro (⟨j, hj, h⟩ | rfl)
    · exact ⟨j, hj, (graph.isInteresting_flag id j).2 (Or.inl h)⟩
    · exact ⟨id, hv, (graph.isInteresting_flag id id).2 (Or.inr ⟨rfl, lt_of_find? hv⟩)⟩

theorem find?_intern_self (graph : FlowGraph) (v : Vertex) :
    (graph.intern v).2.find? v = some (graph.intern v).1 := by
  rw [find?_intern, if_pos rfl]

/-- Interning a vertex adds no edge. -/
theorem edgeSet_intern (graph : FlowGraph) (v : Vertex) :
    (graph.intern v).2.edgeSet = graph.edgeSet := by
  ext ⟨a, b⟩
  have hold : ∀ w id, graph.find? w = some id → (graph.intern v).2.find? w = some id := by
    intro w id hw
    rw [find?_intern]
    split
    · next h => rw [intern_of_find? (h ▸ hw)]
    · exact hw
  have hback : ∀ w id, (graph.intern v).2.find? w = some id → id.index < graph.vertexCount →
      graph.find? w = some id := by
    intro w id hw hlt
    -- the number belongs to an old vertex, which still has it
    obtain ⟨x, hx⟩ := exists_find?_of_lt hlt
    rwa [find?_inj hw (hold x id hx)]
  rw [mem_edgeSet, mem_edgeSet]
  constructor
  · rintro ⟨s, t, ha, hb, hedge⟩
    rw [hasEdge_intern] at hedge
    obtain ⟨hs, ht⟩ := graph.lt_of_hasEdge hedge
    exact ⟨s, t, hback a s ha hs, hback b t hb ht, hedge⟩
  · rintro ⟨s, t, ha, hb, hedge⟩
    exact ⟨s, t, hold a s ha, hold b t hb, by rwa [hasEdge_intern]⟩

/-- Interning a vertex flags none. -/
theorem flagged_intern (graph : FlowGraph) (v w : Vertex) :
    (graph.intern v).2.Flagged w ↔ graph.Flagged w := by
  cases hv : graph.find? v with
  | some id => rw [intern_of_find? hv]
  | none =>
    -- a new vertex comes without a flag
    have hunflagged : graph.isInteresting (graph.intern v).1 = false := by
      unfold intern
      split
      · next h =>
        rw [hv] at h
        cases h
      · simp [isInteresting]
    simp only [Flagged, isInteresting_intern, find?_intern]
    by_cases hw : w = v
    · subst hw
      simp [hv, hunflagged]
    · simp [hw]

theorem has_intern (graph : FlowGraph) (v w : Vertex) :
    (graph.intern v).2.Has w ↔ graph.Has w ∨ w = v := by
  simp only [Has, find?_intern]
  by_cases hw : w = v
  · simp [hw]
  · simp [hw]

/-- Joining two different vertices of the graph. -/
theorem edgeSet_addEdge {a b : Vertex} {s t : VertexId} (ha : graph.find? a = some s)
    (hb : graph.find? b = some t) (hne : a ≠ b) :
    ((graph.addEdge s t).1 = true ↔ (a, b) ∉ graph.edgeSet) ∧
      (graph.addEdge s t).2.edgeSet = insert (a, b) graph.edgeSet := by
  -- different vertices have different numbers
  have hst : s ≠ t := by
    rintro rfl
    exact hne (find?_inj ha hb)
  have hnew : (graph.addEdge s t).1 = true ↔ (a, b) ∉ graph.edgeSet := by
    rw [addEdge_fst, mem_edgeSet_of_find? ha hb, Bool.not_eq_true]
    exact ⟨fun h => h.2.1, fun h => ⟨hst, h, lt_of_find? ha, lt_of_find? hb⟩⟩
  refine ⟨hnew, ?_⟩
  ext ⟨x, y⟩
  rw [Set.mem_insert_iff, mem_edgeSet]
  simp only [find?_addEdge, hasEdge_addEdge]
  constructor
  · rintro ⟨u, w, hx, hy, h | ⟨-, rfl, rfl⟩⟩
    · exact Or.inr (mem_edgeSet.2 ⟨u, w, hx, hy, h⟩)
    · exact Or.inl (Prod.ext (find?_inj hx ha) (find?_inj hy hb))
  · rintro (h | h)
    · obtain ⟨rfl, rfl⟩ := Prod.mk.inj h
      refine ⟨s, t, ha, hb, ?_⟩
      -- an edge that was there before is still there
      by_cases hmem : (x, y) ∈ graph.edgeSet
      · exact Or.inl ((mem_edgeSet_of_find? ha hb).1 hmem)
      · exact Or.inr ⟨hnew.2 hmem, rfl, rfl⟩
    · obtain ⟨u, w, hx, hy, h⟩ := mem_edgeSet.1 h
      exact ⟨u, w, hx, hy, Or.inl h⟩

/-- Whatever is joined, no edge is lost. -/
theorem edgeSet_subset_addEdge (graph : FlowGraph) (s t : VertexId) :
    graph.edgeSet ⊆ (graph.addEdge s t).2.edgeSet := by
  rintro ⟨x, y⟩ hxy
  obtain ⟨u, w, hx, hy, h⟩ := mem_edgeSet.1 hxy
  refine mem_edgeSet.2 ⟨u, w, ?_, ?_, ?_⟩
  · rwa [find?_addEdge]
  · rwa [find?_addEdge]
  · rw [hasEdge_addEdge]
    exact Or.inl h

/-- Joining a vertex, which is added if need be, to one that the graph has. -/
theorem join_spec {a b : Vertex} {t : VertexId} (hb : graph.find? b = some t) (hne : a ≠ b) :
    let joined := (graph.intern a).2.addEdge (graph.intern a).1 t
    (joined.1 = true ↔ (a, b) ∉ graph.edgeSet) ∧
      (joined.1 = false → joined.2 = graph) ∧
      joined.2.edgeSet = insert (a, b) graph.edgeSet ∧
      (∀ v, joined.2.find? v = if v = a then some (graph.intern a).1 else graph.find? v) ∧
      ∀ v, joined.2.Flagged v ↔ graph.Flagged v := by
  intro joined
  have ha := graph.find?_intern_self a
  have hb' : (graph.intern a).2.find? b = some t := by
    rw [find?_intern, if_neg (Ne.symm hne)]
    exact hb
  obtain ⟨hnew, hedges⟩ := edgeSet_addEdge ha hb' hne
  rw [edgeSet_intern] at hnew hedges
  refine ⟨hnew, fun h => ?_, hedges, fun v => ?_, fun v => ?_⟩
  -- an edge that is not new was there, and so was its source
  · have hmem : (a, b) ∈ graph.edgeSet := by
      by_contra hn
      rw [show joined.1 = true from hnew.2 hn] at h
      cases h
    obtain ⟨s, ha'⟩ := (has_of_mem_edgeSet hmem).1
    rw [show joined.2 = (graph.intern a).2 from addEdge_snd_of_not_new h, intern_of_find? ha']
  · rw [find?_addEdge, find?_intern]
  · rw [← flagged_intern graph a]
    simp only [Flagged, joined, find?_addEdge, isInteresting_addEdge]

/-! ## What growing does to the lists of successors -/

theorem mem_successors {s t : VertexId} :
    t ∈ graph.successors s ↔ graph.hasEdge s t = true := by
  rw [hasEdge_iff, successors]
  cases graph.nodes[s.index]? <;> simp

/-- The enumeration has all edges. -/
theorem mem_edges {s t : VertexId} : (s, t) ∈ graph.edges ↔ graph.hasEdge s t = true := by
  simp only [edges, List.mem_flatMap, List.mem_map, Prod.mk.injEq, Array.mem_toList_iff]
  rw [hasEdge_iff]
  constructor
  · rintro ⟨_, -, _, ht, rfl, rfl⟩
    rw [successors] at ht
    split at ht
    · next node hnode => exact ⟨node, hnode, ht⟩
    · exact absurd ht (Array.not_mem_empty _)
  · rintro ⟨node, hnode, ht⟩
    refine ⟨s, ?_, t, ?_, rfl, rfl⟩
    · exact List.mem_map.2
        ⟨s.index, List.mem_range.2 (Array.getElem?_eq_some_iff.1 hnode).1, rfl⟩
    · rw [successors, hnode]
      exact ht

/-- A new vertex takes no successor away. -/
theorem successors_intern (graph : FlowGraph) (v : Vertex) (id : VertexId) :
    (graph.intern v).2.successors id = graph.successors id := by
  unfold intern
  split
  · rfl
  · simp only [successors, append, Array.getElem?_push]
    by_cases hid : id.index = graph.nodes.size
    · simp [hid]
    · simp [hid]

theorem successors_flag (graph : FlowGraph) (id other : VertexId) :
    (graph.flag id).successors other = graph.successors other := by
  simp only [successors, flag, Array.getElem?_modify]
  by_cases hid : id.index = other.index
  · cases hnode : graph.nodes[other.index]? <;> simp [hid]
  · simp [hid]

/-- A new edge is listed last. -/
theorem successors_addEdge_prefix (graph : FlowGraph) (s t id : VertexId) :
    (graph.successors id).toList <+: ((graph.addEdge s t).2.successors id).toList := by
  unfold addEdge
  split
  · exact List.prefix_rfl
  · split
    · simp only [successors, link, Array.getElem?_modify]
      by_cases hid : s.index = id.index
      · cases hnode : graph.nodes[id.index]? <;> simp [hid]
      · simp [hid]
    · exact List.prefix_rfl

/-- Vertices keep their numbers. -/
theorem vertex?_intern {v w : Vertex} {id : VertexId} (h : graph.vertex? id = some w) :
    (graph.intern v).2.vertex? id = some w := by
  rw [← find?_eq_some_iff] at h ⊢
  rw [find?_intern]
  split
  · next hw => rw [intern_of_find? (hw ▸ h)]
  · exact h

theorem vertex?_addEdge (graph : FlowGraph) (s t id : VertexId) :
    (graph.addEdge s t).2.vertex? id = graph.vertex? id :=
  Option.ext fun v => by rw [← find?_eq_some_iff, ← find?_eq_some_iff, find?_addEdge]

theorem vertex?_flag (graph : FlowGraph) (id other : VertexId) :
    (graph.flag id).vertex? other = graph.vertex? other :=
  Option.ext fun v => by rw [← find?_eq_some_iff, ← find?_eq_some_iff, find?_flag]

/-! ## Connecting two vertices -/

theorem has_connect (graph : FlowGraph) (a b v : Vertex) :
    (graph.connect a b).2.Has v ↔ graph.Has v ∨ v = a ∨ v = b := by
  rw [← or_assoc, ← has_intern, ← has_intern]
  simp only [Has, connect, find?_addEdge]

theorem flagged_connect (graph : FlowGraph) (a b v : Vertex) :
    (graph.connect a b).2.Flagged v ↔ graph.Flagged v := by
  rw [← flagged_intern graph a, ← flagged_intern (graph.intern a).2 b]
  simp only [Flagged, connect, find?_addEdge, isInteresting_addEdge]

theorem edgeSet_connect (graph : FlowGraph) {a b : Vertex} (hne : a ≠ b) :
    (graph.connect a b).2.edgeSet = insert (a, b) graph.edgeSet := by
  have ha : ((graph.intern a).2.intern b).2.find? a = some (graph.intern a).1 := by
    rw [find?_intern, if_neg hne, find?_intern_self]
  rw [← edgeSet_intern graph a, ← edgeSet_intern (graph.intern a).2 b]
  exact (edgeSet_addEdge ha (find?_intern_self _ b) hne).2

@[simp]
theorem not_has_empty (v : Vertex) : ¬ empty.Has v := by
  simp [Has, find?, empty]

@[simp]
theorem edgeSet_empty : empty.edgeSet = ∅ := by
  ext ⟨a, b⟩
  refine ⟨fun h => absurd (has_of_mem_edgeSet h).1 (not_has_empty a), fun h => h.elim⟩

end FlowGraph

end CallFlow
