import CallFlow.Proofs.Flow.Closure
import CallFlow.Proofs.Flow.Paths

/-!
# Snapshots answer exactly

A snapshot of a graph answers every question with the vertices at the ends of the paths of that
graph, each once. It does so after any questions that it was asked before, and whatever happened
to the graph since: `Event` is one thing that can happen, `Event.apply` what it does, and the main
statement is about every list of events.
-/

namespace CallFlow

namespace Reachability

open Condensation (Reaches)

/-- The snapshot was taken of this graph, and all answers that it keeps are right. -/
abbrev Describes (snapshot : Reachability) (graph : FlowGraph) (follows : Vertex → Bool) : Prop :=
  snapshot.Sound graph.vertexCount (graph.followed follows)

/-- A new snapshot keeps no answers yet. -/
theorem describes_reachability (graph : FlowGraph) (follows : Vertex → Bool) :
    (graph.reachability follows).Describes graph follows := by
  -- nothing has been asked yet
  have hnone : ∀ k, (graph.reachability follows).known.getD k none = none := by
    intro k
    show (Array.replicate _ none).getD k none = none
    rw [Array.getD_eq_getD_getElem?, Array.getElem?_replicate]
    split <;> rfl
  exact
    { condenses := Condensation.condenses_ofAdjacency (graph.followed_lt follows)
      known_size := Array.size_replicate
      known_nodup := fun k closed hk => by simp [hnone] at hk
      mem_known := fun k closed hk => by simp [hnone] at hk }

namespace Sound

variable {snapshot : Reachability} {n : Nat} {adjacency : Nat → List Nat}
  (hs : snapshot.Sound n adjacency) (hadj : ∀ v, ∀ w ∈ adjacency v, w < n)

include hs

/-- The vertices of different components are different. -/
theorem nodup_members {closed : List Nat} (hclosed : closed.Nodup) :
    (closed.flatMap fun k => (snapshot.condensation.members.getD k []).map VertexId.mk).Nodup := by
  have hmembers := hs.condenses.mem_members
  refine List.nodup_flatMap.2 ⟨fun k _ => ?_, hclosed.imp fun {i j} hij => ?_⟩
  · exact (hs.condenses.members_nodup k).map fun a b hab => congrArg VertexId.index hab
  · intro v hvi hvj
    obtain ⟨a, ha, rfl⟩ := List.mem_map.1 hvi
    obtain ⟨b, hb, hab⟩ := List.mem_map.1 hvj
    obtain rfl : b = a := congrArg VertexId.index hab
    exact hij (((hmembers i b).1 ha).2.2.symm.trans ((hmembers j b).1 hb).2.2)

include hadj

/-- The vertices of the components that the component of `v` leads to are those that `v` reaches. -/
theorem mem_members_iff {closed : List Nat} {v : Nat} (hv : v < n)
    (hclosed : ∀ k, k ∈ closed ↔
      snapshot.condensation.Leads (snapshot.condensation.componentOf v) k) (w : VertexId) :
    (w ∈ closed.flatMap fun k => (snapshot.condensation.members.getD k []).map VertexId.mk) ↔
      Reaches adjacency v w.index := by
  have hmembers := hs.condenses.mem_members
  rw [List.mem_flatMap]
  constructor
  · rintro ⟨k, hk, hw⟩
    obtain ⟨a, ha, rfl⟩ := List.mem_map.1 hw
    obtain ⟨han, -, hak⟩ := (hmembers k a).1 ha
    rw [hs.condenses.reaches_iff_leads hadj hv han, hak]
    exact (hclosed k).1 hk
  · intro h
    -- what is reached is a vertex of the graph
    have hw : w.index < n := by
      rcases Relation.ReflTransGen.cases_tail h with heq | ⟨x, -, hx⟩
      · exact heq ▸ hv
      · exact hadj x _ hx
    refine ⟨snapshot.condensation.componentOf w.index, ?_, List.mem_map.2 ⟨w.index, ?_, rfl⟩⟩
    · rw [hclosed]
      exact (hs.condenses.reaches_iff_leads hadj hv hw).1 h
    · exact (hmembers _ _).2 ⟨hw, hs.condenses.componentOf_lt _ hw, rfl⟩

/-- **One question.** The answer is exact and the snapshot stays sound. -/
theorem query (hout : ∀ v, n ≤ v → adjacency v = []) (source : VertexId) :
    (snapshot.query source).2.Sound n adjacency ∧ (snapshot.query source).1.Nodup ∧
      ∀ w : VertexId, w ∈ (snapshot.query source).1 ↔ Reaches adjacency source.index w.index := by
  rw [Reachability.query]
  cases hget : snapshot.condensation.component[source.index]? with
  | none =>
    -- newer than the snapshot: there are no edges to follow
    have hge : n ≤ source.index := by
      rw [← hs.condenses.component_size]
      exact Array.getElem?_eq_none_iff.1 hget
    refine ⟨hs, List.nodup_singleton _, fun w => ?_⟩
    rw [List.mem_singleton]
    constructor
    · rintro rfl
      exact .refl
    · intro h
      rcases Relation.ReflTransGen.cases_head h with heq | ⟨x, hx, -⟩
      · exact VertexId.eq_of_index_eq heq.symm
      · rw [hout _ hge] at hx
        exact absurd hx List.not_mem_nil
  | some start =>
    have hsource : source.index < n := by
      rw [← hs.condenses.component_size]
      exact (Array.getElem?_eq_some_iff.1 hget).1
    have hstart : snapshot.condensation.componentOf source.index = start := by
      simp [Condensation.componentOf, Array.getD_eq_getD_getElem?, hget]
    have hlt : start < snapshot.condensation.members.size :=
      hstart ▸ hs.condenses.componentOf_lt _ hsource
    obtain ⟨hnodup, hmem⟩ := hs.closure_spec hadj hlt
    refine ⟨hs.remember hadj hlt, hs.nodup_members hnodup, ?_⟩
    exact hs.mem_members_iff hadj hsource (hstart ▸ hmem)

end Sound

variable {snapshot : Reachability} {graph : FlowGraph} {follows : Vertex → Bool}

/-- What `Sound.query` says of the paths of a graph. -/
theorem Sound.query_graph (hs : snapshot.Describes graph follows) (source : VertexId) :
    (snapshot.query source).2.Describes graph follows ∧ (snapshot.query source).1.Nodup ∧
      ∀ w, w ∈ (snapshot.query source).1 ↔ graph.Path follows source w := by
  have hout : ∀ v, graph.vertexCount ≤ v → graph.followed follows v = [] := fun v hv => by
    rw [FlowGraph.followed, Array.getElem?_eq_none hv]
  obtain ⟨hsound, hnodup, hmem⟩ := hs.query (graph.followed_lt follows) hout source
  exact ⟨hsound, hnodup, fun w => (hmem w).trans FlowGraph.reaches_followed⟩

/-! ## A snapshot and its graph over time -/

/-- What can happen after a snapshot was taken: it is asked, or the graph grows. -/
inductive Event
  | ask (source : VertexId)
  | intern (v : Vertex)
  | addEdge (source target : VertexId)
  | flag (id : VertexId)

/-- The graph and the snapshot after an event. -/
def Event.apply (state : FlowGraph × Reachability) : Event → FlowGraph × Reachability
  | .ask source => (state.1, (state.2.query source).2)
  | .intern v => ((state.1.intern v).2, state.2)
  | .addEdge source target => ((state.1.addEdge source target).2, state.2)
  | .flag id => ((state.1.markInteresting id).2, state.2)

/-- An event leaves the snapshot a snapshot of the old graph and every vertex its number. -/
theorem Event.apply_spec (event : Event) (state : FlowGraph × Reachability)
    (hs : state.2.Describes graph follows) :
    (event.apply state).2.Describes graph follows ∧
      ∀ v id, state.1.find? v = some id → (event.apply state).1.find? v = some id := by
  cases event with
  -- only a question changes the snapshot, and it adds a right answer
  | ask source => exact ⟨(hs.query_graph source).1, fun _ _ h => h⟩
  | intern w =>
    refine ⟨hs, fun v id h => ?_⟩
    show (state.1.intern w).2.find? v = some id
    rw [FlowGraph.find?_intern]
    split
    · next hvw =>
      rw [hvw] at h
      rw [FlowGraph.intern_of_find? h]
    · exact h
  | addEdge source target =>
    exact ⟨hs, fun v id h => (state.1.find?_addEdge source target v).trans h⟩
  | flag id => exact ⟨hs, fun _ _ h => h⟩

/-- So whatever happens, the snapshot goes on describing the graph that it was taken of. -/
theorem foldl_apply_spec (history : List Event) (state : FlowGraph × Reachability)
    (hs : state.2.Describes graph follows) :
    (history.foldl Event.apply state).2.Describes graph follows ∧
      ∀ v id, state.1.find? v = some id →
        (history.foldl Event.apply state).1.find? v = some id := by
  induction history generalizing state with
  | nil => exact ⟨hs, fun _ _ h => h⟩
  | cons event history ih =>
    obtain ⟨hs', hkeep⟩ := event.apply_spec state hs
    obtain ⟨hs'', hkeep'⟩ := ih (event.apply state) hs'
    exact ⟨hs'', fun v id h => hkeep' v id (hkeep v id h)⟩

/-- **A snapshot is exact for good.** After any questions and any growth of the graph it reaches
from every vertex, each once, the ends of the paths that the graph had when the snapshot was
taken; a vertex that came later reaches itself only. -/
theorem reachedFrom_exact (graph : FlowGraph) (follows : Vertex → Bool) (history : List Event) :
    let later := history.foldl Event.apply (graph, graph.reachability follows)
    (∀ source, (later.2.reachedFrom source).Nodup ∧
      (∀ w, w ∈ later.2.reachedFrom source ↔ graph.Path follows source w) ∧
      ∀ p : VertexId → Bool, later.2.anyReached source p = true ↔
        ∃ w, graph.Path follows source w ∧ p w = true) ∧
    ∀ v source, graph.find? v = none → later.1.find? v = some source →
      later.2.reachedFrom source = [source] := by
  intro later
  obtain ⟨hs, hkeep⟩ := foldl_apply_spec history (graph, graph.reachability follows)
    (describes_reachability graph follows)
  refine ⟨fun source => ?_, fun v source hnew hlater => ?_⟩
  · obtain ⟨-, hnodup, hmem⟩ := hs.query_graph source
    refine ⟨hnodup, hmem, fun p => ?_⟩
    rw [anyReached, queryAny, List.any_eq_true]
    exact exists_congr fun w => and_congr_left' (hmem w)
  · obtain ⟨-, hnodup, hmem⟩ := hs.query_graph source
    -- a number that the old graph had given out would belong to an old vertex
    have hge : graph.vertexCount ≤ source.index := by
      by_contra hlt
      obtain ⟨x, hx⟩ := FlowGraph.exists_find?_of_lt (Nat.lt_of_not_le hlt)
      rw [FlowGraph.find?_inj (hkeep x source hx) hlater, hnew] at hx
      cases hx
    refine List.perm_singleton.1 ((List.perm_ext_iff_of_nodup hnodup
      (List.nodup_singleton source)).2 fun w => ?_)
    rw [hmem, List.mem_singleton]
    constructor
    · intro h
      by_contra hne
      have := FlowGraph.Path.lt_of_ne h (Ne.symm hne)
      omega
    · rintro rfl
      exact .refl

/-- An edge that comes after the snapshot is not followed. -/
theorem reachedFrom_exact_example :
    let graph := (FlowGraph.empty.connect (.func ⟨0⟩) (.callee ⟨0⟩)).2
    let later := [Event.ask ⟨0⟩, .intern (.param ⟨0⟩ 1), .addEdge ⟨2⟩ ⟨0⟩].foldl Event.apply
      (graph, graph.reachability Vertex.isTracked)
    later.1.hasEdge ⟨2⟩ ⟨0⟩ = true ∧ later.2.reachedFrom ⟨2⟩ = [⟨2⟩] ∧
      ⟨1⟩ ∈ later.2.reachedFrom ⟨0⟩ := by
  intro graph later
  have hexact := reachedFrom_exact graph Vertex.isTracked
    [.ask ⟨0⟩, .intern (.param ⟨0⟩ 1), .addEdge ⟨2⟩ ⟨0⟩]
  have hnew : graph.find? (.param ⟨0⟩ 1) = none := by decide +kernel
  have hlater : later.1.find? (.param ⟨0⟩ 1) = some ⟨2⟩ := by decide +kernel
  have hedge : graph.hasEdge ⟨0⟩ ⟨1⟩ = true := by decide +kernel
  refine ⟨by decide +kernel, hexact.2 _ _ hnew hlater, ((hexact.1 ⟨0⟩).2.1 ⟨1⟩).2 ?_⟩
  exact .single ⟨hedge, .func ⟨0⟩, by decide +kernel, rfl⟩

end Reachability

end CallFlow
