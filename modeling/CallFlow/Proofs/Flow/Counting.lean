import CallFlow.Proofs.Flow.Edges
import Mathlib.Data.Set.Card

/-!
# Counts of a flow graph

A graph counts what it holds: the numbers of its vertices, edges and flags are those of the sets
without numbers.
-/

namespace CallFlow.FlowGraph

variable {graph : FlowGraph}

/-- The vertices of a graph. -/
def vertexSet (graph : FlowGraph) : Set Vertex := { v | graph.Has v }

/-- The vertices of a graph that are flagged. -/
def flaggedSet (graph : FlowGraph) : Set Vertex := { v | graph.Flagged v }

/-- The vertex of a number that the graph has given out. -/
def vertexAt (graph : FlowGraph) (i : ℕ) : Vertex := (graph.vertex? ⟨i⟩).getD .unknown

theorem find?_vertexAt {i : ℕ} (hi : i < graph.vertexCount) :
    graph.find? (graph.vertexAt i) = some ⟨i⟩ := by
  obtain ⟨v, hv⟩ : ∃ v, graph.find? v = some ⟨i⟩ := exists_find?_of_lt hi
  rwa [vertexAt, (graph.find?_eq_some_iff v ⟨i⟩).1 hv]

theorem vertexAt_of_find? {v : Vertex} {id : VertexId} (h : graph.find? v = some id) :
    graph.vertexAt id.index = v := by
  rw [vertexAt, (graph.find?_eq_some_iff v id).1 h, Option.getD_some]

/-- Different numbers are those of different vertices. -/
theorem vertexAt_inj {i j : ℕ} (hi : i < graph.vertexCount) (hj : j < graph.vertexCount)
    (h : graph.vertexAt i = graph.vertexAt j) : i = j := by
  have hi := find?_vertexAt hi
  rw [h, find?_vertexAt hj] at hi
  exact (congrArg VertexId.index (Option.some.inj hi)).symm

/-- There are as many vertices as numbers. -/
theorem ncard_image_vertexAt {is : List ℕ} (hnodup : is.Nodup)
    (hlt : ∀ i ∈ is, i < graph.vertexCount) :
    (graph.vertexAt '' { i | i ∈ is }).ncard = is.length := by
  have hinj : Set.InjOn graph.vertexAt { i | i ∈ is } := fun i hi j hj h =>
    vertexAt_inj (hlt i hi) (hlt j hj) h
  rw [hinj.ncard_image,
    show { i | i ∈ is } = (is.toFinset : Set ℕ) from (List.coe_toFinset is).symm,
    Set.ncard_coe_finset, List.toFinset_card_of_nodup hnodup]

/-- The vertices are those with the numbers below the count. -/
theorem vertexSet_eq (graph : FlowGraph) :
    graph.vertexSet = graph.vertexAt '' { i | i ∈ List.range graph.vertexCount } := by
  ext v
  simp only [vertexSet, Set.mem_ofPred_eq, Set.mem_image, List.mem_range]
  constructor
  · rintro ⟨id, hid⟩
    exact ⟨id.index, lt_of_find? hid, vertexAt_of_find? hid⟩
  · rintro ⟨i, hi, rfl⟩
    exact ⟨⟨i⟩, find?_vertexAt hi⟩

theorem ncard_vertexSet (graph : FlowGraph) : graph.vertexSet.ncard = graph.vertexCount := by
  rw [vertexSet_eq, ncard_image_vertexAt List.nodup_range fun i hi => List.mem_range.1 hi,
    List.length_range]

/-- The flagged vertices are those whose numbers are flagged. -/
theorem flaggedSet_eq (graph : FlowGraph) :
    graph.flaggedSet = graph.vertexAt ''
      { i | i ∈ (List.range graph.vertexCount).filter fun i => graph.isInteresting ⟨i⟩ } := by
  ext v
  simp only [flaggedSet, Set.mem_ofPred_eq, Set.mem_image, List.mem_filter, List.mem_range]
  constructor
  · rintro ⟨id, hid, hflag⟩
    exact ⟨id.index, ⟨lt_of_find? hid, hflag⟩, vertexAt_of_find? hid⟩
  · rintro ⟨i, ⟨hi, hflag⟩, rfl⟩
    exact ⟨⟨i⟩, find?_vertexAt hi, hflag⟩

theorem map_interesting (graph : FlowGraph) :
    graph.nodes.toList.map FlowNode.interesting =
      (List.range graph.vertexCount).map fun i => graph.isInteresting ⟨i⟩ := by
  refine List.ext_getElem (by simp [vertexCount]) fun i hi hi' => ?_
  rw [List.length_map, Array.length_toList] at hi
  simp [isInteresting, hi]

/-- There are as many flagged vertices as the count says. -/
theorem ncard_flaggedSet (graph : FlowGraph) :
    graph.flaggedSet.ncard = graph.interestingCount := by
  rw [flaggedSet_eq, ncard_image_vertexAt (List.nodup_range.filter _)
    fun i hi => List.mem_range.1 (List.mem_filter.1 hi).1, ← List.countP_eq_length_filter]
  calc (List.range graph.vertexCount).countP (fun i => graph.isInteresting ⟨i⟩)
      = ((List.range graph.vertexCount).map fun i => graph.isInteresting ⟨i⟩).countP id :=
        (List.countP_map (p := id)).symm
    _ = graph.nodes.toList.countP FlowNode.interesting := by
        rw [← map_interesting, List.countP_map]
        rfl
    _ = graph.interestingCount := Array.countP_toList

theorem finite_flaggedSet (graph : FlowGraph) : graph.flaggedSet.Finite := by
  rw [flaggedSet_eq]
  exact (List.finite_toSet _).image _

/-- The edge between the vertices of two numbers. -/
def linkAt (graph : FlowGraph) (link : Link) : Vertex × Vertex :=
  (graph.vertexAt link.1.index, graph.vertexAt link.2.index)

/-- The edges are those that are stored, with vertices for numbers. -/
theorem edgeSet_eq (graph : FlowGraph) :
    graph.edgeSet = graph.linkAt '' { link | link ∈ graph.links.toList } := by
  ext ⟨a, b⟩
  simp only [Set.mem_image, Set.mem_ofPred_eq, Std.TreeSet.mem_toList, mem_edgeSet]
  constructor
  · rintro ⟨s, t, ha, hb, hedge⟩
    refine ⟨(s, t), Std.TreeSet.contains_iff_mem.1 hedge, ?_⟩
    rw [linkAt, vertexAt_of_find? ha, vertexAt_of_find? hb]
  · rintro ⟨⟨s, t⟩, hmem, heq⟩
    have hedge : graph.hasEdge s t = true := Std.TreeSet.contains_iff_mem.2 hmem
    obtain ⟨hs, ht⟩ := graph.lt_of_hasEdge hedge
    obtain ⟨rfl, rfl⟩ := Prod.mk.inj heq
    exact ⟨s, t, find?_vertexAt hs, find?_vertexAt ht, hedge⟩

theorem nodup_links (graph : FlowGraph) : graph.links.toList.Nodup :=
  graph.links.distinct_toList.imp fun {a b} (h : ¬ Link.order a b = .eq) (heq : a = b) =>
    h (heq ▸ Std.ReflCmp.compare_self)

theorem finite_edgeSet (graph : FlowGraph) : graph.edgeSet.Finite := by
  rw [edgeSet_eq]
  exact (List.finite_toSet _).image _

/-- There are as many edges as the count says. -/
theorem ncard_edgeSet (graph : FlowGraph) : graph.edgeSet.ncard = graph.edgeCount := by
  -- two edges that are stored have different vertices at one end
  have hinj : Set.InjOn graph.linkAt { link | link ∈ graph.links.toList } := by
    rintro ⟨s, t⟩ hst ⟨u, v⟩ huv heq
    have hlt : ∀ link : Link, link ∈ graph.links.toList →
        link.1.index < graph.vertexCount ∧ link.2.index < graph.vertexCount := fun link h =>
      graph.lt_of_hasEdge (Std.TreeSet.contains_iff_mem.2 (Std.TreeSet.mem_toList.1 h))
    obtain ⟨hs, ht⟩ := hlt _ hst
    obtain ⟨hu, hv⟩ := hlt _ huv
    obtain ⟨hsu, htv⟩ := Prod.mk.inj heq
    exact Prod.ext (VertexId.eq_of_index_eq (vertexAt_inj hs hu hsu))
      (VertexId.eq_of_index_eq (vertexAt_inj ht hv htv))
  classical
  rw [edgeSet_eq, hinj.ncard_image,
    show { link | link ∈ graph.links.toList } = (graph.links.toList.toFinset : Set Link) from
      (List.coe_toFinset _).symm,
    Set.ncard_coe_finset, List.toFinset_card_of_nodup graph.nodup_links,
    Std.TreeSet.length_toList]
  rfl

/-- An edge is counted if it is new. -/
theorem edgeCount_addEdge (graph : FlowGraph) (s t : VertexId) :
    (graph.addEdge s t).2.edgeCount =
      graph.edgeCount + if (graph.addEdge s t).1 then 1 else 0 := by
  unfold addEdge
  split
  · rfl
  · next hold =>
    split
    · have hnew : (s, t) ∉ graph.links := fun hmem =>
        hold (Or.inr (Std.TreeSet.contains_iff_mem.2 hmem))
      exact (Std.TreeSet.size_insert ..).trans (if_neg hnew)
    · rfl

theorem edgeCount_intern (graph : FlowGraph) (v : Vertex) :
    (graph.intern v).2.edgeCount = graph.edgeCount := by
  unfold intern
  split <;> rfl

theorem interestingCount_congr {other : FlowGraph} (h : ∀ v, other.Flagged v ↔ graph.Flagged v) :
    other.interestingCount = graph.interestingCount := by
  rw [← ncard_flaggedSet, ← ncard_flaggedSet, show other.flaggedSet = graph.flaggedSet from
    Set.ext h]

/-- A new flag counts one more. -/
theorem interestingCount_flag {v : Vertex} {id : VertexId} (hv : graph.find? v = some id)
    (hflag : ¬ graph.isInteresting id = true) :
    (graph.flag id).interestingCount = graph.interestingCount + 1 := by
  have hnew : v ∉ graph.flaggedSet := by
    rintro ⟨id', hv', h⟩
    rw [hv, Option.some.injEq] at hv'
    exact hflag (hv' ▸ h)
  have hinsert : (graph.flag id).flaggedSet = insert v graph.flaggedSet := by
    ext w
    exact (flagged_flag hv w).trans or_comm
  rw [← ncard_flaggedSet, ← ncard_flaggedSet, hinsert,
    Set.ncard_insert_of_notMem hnew graph.finite_flaggedSet]

end CallFlow.FlowGraph
