import CallFlow.Proofs.Flow.Counting
import Mathlib.Order.CompletePartialOrder

/-!
# The stores of a flow graph agree

A graph keeps its vertices in an array with the targets of each, an index from vertices to numbers,
and a set of edges. `Operation` is what can be asked of a graph that changes it. One operation
keeps the lists of targets free of repetitions and loops (`Simple.apply`), so any sequence of them
does, and then the three stores hold one and the same graph (`Coherent`).
-/

namespace CallFlow.FlowGraph

variable {graph : FlowGraph}

/-- What changes a graph. Numbers are given as they were received from the graph. -/
inductive Operation
  | intern (v : Vertex)
  | unknown
  | connect (source target : Vertex)
  | addEdge (source target : VertexId)
  | markInteresting (id : VertexId)

/-- The graph after an operation. -/
def Operation.apply (graph : FlowGraph) : Operation → FlowGraph
  | .intern v => (graph.intern v).2
  | .unknown => (graph.intern .unknown).2
  | .connect source target => (graph.connect source target).2
  | .addEdge source target => (graph.addEdge source target).2
  | .markInteresting id => (graph.markInteresting id).2

/-- The graph after a sequence of operations on a new one. -/
def after (history : List Operation) : FlowGraph :=
  history.foldl Operation.apply empty

theorem after_append (history later : List Operation) :
    after (history ++ later) = later.foldl Operation.apply (after history) :=
  List.foldl_append

/-! ## No repetition and no loop -/

/-- No vertex lists a target twice or itself. -/
structure Simple (graph : FlowGraph) : Prop where
  nodup : ∀ id, (graph.successors id).toList.Nodup
  not_mem_self : ∀ id, id ∉ graph.successors id

theorem simple_empty : Simple empty where
  nodup _ := List.nodup_nil
  not_mem_self _ := Array.not_mem_empty _

/-- A new edge is appended to the targets of its source; nothing else is listed. -/
theorem successors_addEdge (graph : FlowGraph) (s t id : VertexId) :
    ((graph.addEdge s t).2.successors id).toList =
      (graph.successors id).toList ++
        if (graph.addEdge s t).1 = true ∧ id = s then [t] else [] := by
  unfold addEdge
  split
  · simp
  · split
    -- a new edge goes behind the other successors of its source
    · next hlt =>
      simp only [successors, link, Array.getElem?_modify]
      by_cases hid : id = s
      · subst hid
        simp [hlt.1]
      · have hne : s.index ≠ id.index := fun h => hid (VertexId.eq_of_index_eq h.symm)
        simp [hid, hne]
    · simp

namespace Simple

/-- A new vertex has no successors. -/
theorem intern (h : graph.Simple) (v : Vertex) : (graph.intern v).2.Simple where
  nodup id := by
    rw [successors_intern]
    exact h.nodup id
  not_mem_self id := by
    rw [successors_intern]
    exact h.not_mem_self id

/-- A flag changes no edge. -/
theorem flag (h : graph.Simple) (id : VertexId) : (graph.flag id).Simple where
  nodup other := by
    rw [successors_flag]
    exact h.nodup other
  not_mem_self other := by
    rw [successors_flag]
    exact h.not_mem_self other

/-- An edge is listed only if it is new, and a loop never is. -/
theorem addEdge (h : graph.Simple) (s t : VertexId) : (graph.addEdge s t).2.Simple where
  nodup id := by
    rw [successors_addEdge]
    split
    · next hnew =>
      obtain ⟨hnew, rfl⟩ := hnew
      -- the edge is new, so its end was no successor before
      have hfresh := ((graph.addEdge_fst id t).1 hnew).2.1
      have hnot : t ∉ (graph.successors id).toList := fun hmem => by
        rw [mem_successors.1 (Array.mem_toList_iff.1 hmem)] at hfresh
        cases hfresh
      exact List.nodup_append.2 ⟨h.nodup id, List.nodup_singleton t, fun a ha b hb hab =>
        hnot (List.mem_singleton.1 hb ▸ hab ▸ ha)⟩
    · rw [List.append_nil]
      exact h.nodup id
  not_mem_self id hmem := by
    rw [mem_successors, hasEdge_addEdge] at hmem
    rcases hmem with hold | ⟨hnew, rfl, rfl⟩
    · exact h.not_mem_self id (mem_successors.2 hold)
    · exact ((graph.addEdge_fst id id).1 hnew).1 rfl

/-- One operation. -/
theorem apply (h : graph.Simple) (operation : Operation) :
    (Operation.apply graph operation).Simple := by
  cases operation with
  | intern v => exact h.intern v
  | unknown => exact h.intern .unknown
  | connect source target => exact ((h.intern source).intern target).addEdge _ _
  | addEdge source target => exact h.addEdge source target
  | markInteresting id => exact h.flag id

theorem foldl (h : graph.Simple) (operations : List Operation) :
    (operations.foldl Operation.apply graph).Simple := by
  induction operations generalizing graph with
  | nil => exact h
  | cons operation operations ih => exact ih (h.apply operation)

end Simple

theorem simple_after (history : List Operation) : (after history).Simple :=
  simple_empty.foldl history

/-! ## The stores of a graph without repetitions -/

/-- The array, the index and the set of edges hold the same vertices and the same edges. -/
structure Coherent (graph : FlowGraph) : Prop where
  /-- The index leads to the positions of the stored vertices and nowhere else. -/
  index_iff : ∀ v id,
    graph.find? v = some id ↔ (graph.nodes[id.index]?).map FlowNode.vertex = some v
  /-- Different vertices have different numbers. -/
  index_inj : ∀ v w id, graph.find? v = some id → graph.find? w = some id → v = w
  /-- The set of edges holds what the vertices list, which are numbers of the graph. -/
  links_iff : ∀ s t, graph.hasEdge s t = true ↔ t ∈ graph.successors s
  links_lt : ∀ s t, graph.hasEdge s t = true →
    s.index < graph.vertexCount ∧ t.index < graph.vertexCount
  successors_nodup : ∀ id, (graph.successors id).toList.Nodup
  successors_irrefl : ∀ id, id ∉ graph.successors id
  /-- The enumeration has each edge once, by source number, and as many as are counted. -/
  mem_edges_iff : ∀ s t, (s, t) ∈ graph.edges ↔ graph.hasEdge s t = true
  edges_nodup : graph.edges.Nodup
  edges_sorted : graph.edges.Pairwise fun a b => a.1.index ≤ b.1.index
  length_edges : graph.edges.length = graph.edgeCount

theorem pairwise_vertexIds (graph : FlowGraph) :
    graph.vertexIds.Pairwise fun s t => s.index < t.index :=
  List.pairwise_map.2 List.pairwise_lt_range

/-- The edges out of one vertex are enumerated together, and before those of a later one. -/
theorem edges_pairwise (graph : FlowGraph) :
    graph.edges.Pairwise fun a b => a.1.index ≤ b.1.index := by
  refine List.pairwise_flatMap.2 ⟨fun s _ => ?_, (pairwise_vertexIds graph).imp ?_⟩
  · exact List.pairwise_map.2 (List.pairwise_of_forall fun _ _ => Nat.le_refl _)
  · rintro s t hst a ha b hb
    obtain ⟨_, -, rfl⟩ := List.mem_map.1 ha
    obtain ⟨_, -, rfl⟩ := List.mem_map.1 hb
    exact Nat.le_of_lt hst

/-- No edge is enumerated twice, for no successor is. -/
theorem Simple.nodup_edges (h : graph.Simple) : graph.edges.Nodup := by
  refine List.nodup_flatMap.2 ⟨fun s _ => ?_, (pairwise_vertexIds graph).imp ?_⟩
  · exact (h.nodup s).map fun _ _ heq => congrArg Prod.snd heq
  · rintro s t hst a ha hb
    obtain ⟨_, -, rfl⟩ := List.mem_map.1 ha
    obtain ⟨_, -, heq⟩ := List.mem_map.1 hb
    exact absurd (congrArg (fun link : Link => link.1.index) heq) (Nat.ne_of_gt hst)

/-- Two lists without repetitions of the same edges: the one enumerated and the one stored. -/
theorem Simple.edges_perm (h : graph.Simple) : graph.edges.Perm graph.links.toList :=
  (List.perm_ext_iff_of_nodup h.nodup_edges graph.nodup_links).2 fun _ =>
    mem_edges.trans (Std.TreeSet.contains_iff_mem.trans Std.TreeSet.mem_toList.symm)

/-- The stores agree as long as the successors are simple. -/
theorem Simple.coherent (h : graph.Simple) : graph.Coherent where
  index_iff := graph.find?_eq_some_iff
  index_inj _ _ _ := find?_inj
  links_iff _ _ := mem_successors.symm
  links_lt _ _ := graph.lt_of_hasEdge
  successors_nodup := h.nodup
  successors_irrefl := h.not_mem_self
  mem_edges_iff _ _ := mem_edges
  edges_nodup := h.nodup_edges
  edges_sorted := graph.edges_pairwise
  length_edges := h.edges_perm.length_eq.trans Std.TreeSet.length_toList

/-! ## Numbers are kept -/

/-- A vertex keeps its number under an operation. -/
theorem find?_apply {v : Vertex} {id : VertexId} (h : graph.find? v = some id)
    (operation : Operation) : (Operation.apply graph operation).find? v = some id := by
  -- interning keeps the numbers that are there
  have hintern : ∀ (graph : FlowGraph) (w : Vertex), graph.find? v = some id →
      (graph.intern w).2.find? v = some id := fun graph w h =>
    (find?_eq_some_iff ..).2 (vertex?_intern ((find?_eq_some_iff ..).1 h))
  cases operation with
  | intern w => exact hintern graph w h
  | unknown => exact hintern graph .unknown h
  | connect source target =>
    exact (find?_addEdge ..).trans (hintern _ target (hintern graph source h))
  | addEdge source target => exact (find?_addEdge ..).trans h
  | markInteresting other => exact h

theorem find?_foldl {v : Vertex} {id : VertexId} (h : graph.find? v = some id)
    (operations : List Operation) :
    (operations.foldl Operation.apply graph).find? v = some id := by
  induction operations generalizing graph with
  | nil => exact h
  | cons operation operations ih => exact ih (find?_apply h operation)

/-! ## The edges grow by those that are new -/

/-- The pairs of numbers that are joined. -/
def linkSet (graph : FlowGraph) : Set Link := { link | graph.hasEdge link.1 link.2 = true }

/-- Joining two different numbers of the graph leaves them joined, and nothing else changes. -/
theorem linkSet_addEdge {s t : VertexId} (hs : s.index < graph.vertexCount)
    (ht : t.index < graph.vertexCount) (hne : s ≠ t) :
    (graph.addEdge s t).2.linkSet = insert (s, t) graph.linkSet := by
  ext ⟨a, b⟩
  simp only [linkSet, Set.mem_ofPred_eq, Set.mem_insert_iff, Prod.mk.injEq, hasEdge_addEdge,
    addEdge_fst]
  constructor
  · rintro (h | ⟨-, h⟩)
    · exact Or.inr h
    · exact Or.inl h
  · rintro (⟨rfl, rfl⟩ | h)
    -- the edge is there already, or it is added
    · cases hold : graph.hasEdge a b with
      | true => exact Or.inl rfl
      | false => exact Or.inr ⟨⟨hne, rfl, hs, ht⟩, rfl, rfl⟩
    · exact Or.inl h

/-- The answer says whether the set of edges grew. -/
theorem addEdge_fst_iff_ssubset (graph : FlowGraph) (s t : VertexId) :
    (graph.addEdge s t).1 = true ↔ graph.linkSet ⊂ (graph.addEdge s t).2.linkSet := by
  constructor
  · intro hnew
    obtain ⟨hne, hfresh, hs, ht⟩ := (graph.addEdge_fst s t).1 hnew
    rw [linkSet_addEdge hs ht hne]
    refine Set.ssubset_insert fun hmem => ?_
    rw [show graph.hasEdge s t = true from hmem] at hfresh
    cases hfresh
  · intro hgrew
    -- an edge that is not new leaves the graph as it is
    by_contra hold
    rw [addEdge_snd_of_not_new (Bool.not_eq_true _ ▸ hold)] at hgrew
    exact hgrew.ne rfl

/-- **The representation invariant.** After any operations the stores of a graph agree; a vertex
that is interned is found under the number that is returned, and keeps that number after any
further operations; and joining two numbers is reported exactly if it adds to the edges. -/
theorem after_coherent (history : List Operation) :
    (after history).Coherent ∧
    (∀ v later, ((after history).intern v).2.find? v = some ((after history).intern v).1 ∧
      (after (history ++ .intern v :: later)).find? v = some ((after history).intern v).1) ∧
    (∀ v id later, (after history).vertex? id = some v →
      (after (history ++ later)).vertex? id = some v ∧
        (after (history ++ later)).intern v = (id, after (history ++ later))) ∧
    ∀ s t, let next := (after history).addEdge s t
      (next.1 = true ↔ (after history).linkSet ⊂ next.2.linkSet) ∧
      next.2.edgeCount = (after history).edgeCount + (if next.1 then 1 else 0) ∧
      (s.index < (after history).vertexCount → t.index < (after history).vertexCount → s ≠ t →
        next.2.linkSet = insert (s, t) (after history).linkSet) := by
  -- numbers are kept by all that is done later
  have hkeep : ∀ v id later, (after history).find? v = some id →
      (after (history ++ later)).find? v = some id := fun v id later h => by
    rw [after_append]
    exact find?_foldl h later
  refine ⟨(simple_after history).coherent, fun v later => ⟨find?_intern_self _ v, ?_⟩,
    fun v id later h => ?_, fun s t => ⟨addEdge_fst_iff_ssubset _ s t, edgeCount_addEdge _ s t,
      linkSet_addEdge⟩⟩
  · rw [after_append]
    exact find?_foldl (find?_intern_self _ v) later
  · have hlater := hkeep v id later ((find?_eq_some_iff ..).2 h)
    exact ⟨(find?_eq_some_iff ..).1 hlater, intern_of_find? hlater⟩

/-- A second connection of the same vertices is not new; the numbers stay. -/
theorem after_coherent_example :
    let history := [Operation.intern (.func ⟨0⟩), .connect (.func ⟨0⟩) (.callee ⟨0⟩), .unknown,
      .markInteresting ⟨1⟩]
    let later := [Operation.addEdge ⟨0⟩ ⟨1⟩, .addEdge ⟨1⟩ ⟨1⟩, .addEdge ⟨2⟩ ⟨0⟩]
    (after history).Coherent ∧ (after (history ++ later)).vertex? ⟨1⟩ = some (.callee ⟨0⟩) ∧
      (after (history ++ later)).edges = [(⟨0⟩, ⟨1⟩), (⟨2⟩, ⟨0⟩)] ∧
      ((after history).addEdge ⟨2⟩ ⟨0⟩).2.linkSet = insert (⟨2⟩, ⟨0⟩) (after history).linkSet := by
  intro history later
  obtain ⟨hcoherent, -, hkeep, hadd⟩ := after_coherent history
  have hcallee : (after history).vertex? ⟨1⟩ = some (.callee ⟨0⟩) := by decide +kernel
  exact ⟨hcoherent, (hkeep _ _ later hcallee).1, by decide +kernel,
    (hadd ⟨2⟩ ⟨0⟩).2.2 (by decide +kernel) (by decide +kernel) (by decide)⟩

end CallFlow.FlowGraph
