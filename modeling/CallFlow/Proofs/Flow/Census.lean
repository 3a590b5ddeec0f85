import CallFlow.Flow.CallbackCensus
import CallFlow.Proofs.Lists
import CallFlow.Proofs.Renaming.Mirror

/-!
# The census of callbacks

The census of a graph counts the arguments that functions flow into directly, and the calls that
have such an argument. Both are sizes of sets without vertex numbers, which a renaming keeps.
-/

namespace CallFlow

namespace FlowGraph

variable {graph : FlowGraph}

/-- The arguments that are functions: each has its call and its slot, which is not the receiver. -/
def callbackSet (graph : FlowGraph) : Set (CallId × ℕ) :=
  { x | 0 < x.2 ∧ ∃ f, (.func f, .arg x.1 x.2) ∈ graph.edgeSet }

end FlowGraph

namespace CallbackStats

variable {graph : FlowGraph}

/-- An edge counts if it leads from a function into an argument, and not into the slot of the
receiver. -/
theorem slotOf?_eq_some_iff {s t : VertexId} {x : CallId × ℕ} :
    slotOf? graph (s, t) = some x ↔ 0 < x.2 ∧ ∃ f, graph.find? (.func f) = some s ∧
      graph.find? (.arg x.1 x.2) = some t := by
  obtain ⟨c, slot⟩ := x
  simp only [FlowGraph.find?_eq_some_iff]
  unfold slotOf?
  dsimp only
  split
  · next f call k hs ht =>
    rw [hs, ht]
    constructor
    · intro h
      split at h
      · next hk =>
        obtain ⟨rfl, rfl⟩ := Prod.mk.inj (Option.some.inj h)
        exact ⟨hk, f, rfl, rfl⟩
      · cases h
    · rintro ⟨hslot, g, hg, heq⟩
      obtain ⟨rfl, rfl⟩ := Vertex.arg.inj (Option.some.inj heq)
      exact if_pos hslot
  -- the edge leads between other vertices
  · next hne =>
    refine ⟨nofun, ?_⟩
    rintro ⟨-, f, hs, ht⟩
    exact absurd ht (hne f c slot hs)

/-- What the census lists is what the functions flow into. -/
theorem mem_slots {x : CallId × ℕ} :
    x ∈ graph.edges.filterMap (slotOf? graph) ↔ x ∈ graph.callbackSet := by
  rw [List.mem_filterMap]
  constructor
  · rintro ⟨⟨s, t⟩, hedge, hslot⟩
    obtain ⟨hpos, f, hs, ht⟩ := slotOf?_eq_some_iff.1 hslot
    exact ⟨hpos, f, FlowGraph.mem_edgeSet.2 ⟨s, t, hs, ht, FlowGraph.mem_edges.1 hedge⟩⟩
  · rintro ⟨hpos, f, hedge⟩
    obtain ⟨s, t, hs, ht, hst⟩ := FlowGraph.mem_edgeSet.1 hedge
    exact ⟨(s, t), FlowGraph.mem_edges.2 hst, slotOf?_eq_some_iff.2 ⟨hpos, f, hs, ht⟩⟩

theorem setOf_slots (graph : FlowGraph) :
    { x | x ∈ graph.edges.filterMap (slotOf? graph) } = graph.callbackSet :=
  Set.ext fun _ => mem_slots

theorem finite_callbackSet (graph : FlowGraph) : graph.callbackSet.Finite :=
  setOf_slots graph ▸ List.finite_toSet _

/-- **The census counts** callbacks and the calls that have any. -/
theorem ofGraph_eq (graph : FlowGraph) :
    ofGraph graph =
      ⟨graph.callbackSet.ncard, (Prod.fst '' graph.callbackSet).ncard⟩ := by
  have hslots := setOf_slots graph
  have hcalls : { c | c ∈ (graph.edges.filterMap (slotOf? graph)).eraseDups.map Prod.fst } =
      Prod.fst '' graph.callbackSet := by
    ext c
    simp only [Set.mem_ofPred_eq, List.mem_map, List.mem_eraseDups, mem_slots, Set.mem_image]
  rw [← hslots, ← length_eraseDups, hslots, ← hcalls, ← length_eraseDups]
  rfl

end CallbackStats

/-! ## The census under a renaming -/

namespace FlowGraph.Mirrors

variable {extra : Set String} {ρ : Renaming} {G G' : FlowGraph}

/-- Mirrored graphs have the same callbacks, up to the names of the calls. -/
theorem callbackSet_eq (h : Mirrors extra ρ G G') :
    G'.callbackSet = (fun x => (ρ.callId x.1, x.2)) '' G.callbackSet := by
  ext ⟨c', slot⟩
  simp only [callbackSet, Set.mem_ofPred_eq, Set.mem_image, Prod.mk.injEq]
  constructor
  · rintro ⟨hpos, f', hedge⟩
    rcases (h.edges _).1 hedge with ⟨⟨a, b⟩, hab, heq⟩ | ⟨_, -, heq⟩
    · obtain ⟨ha, hb⟩ := Prod.mk.inj heq
      obtain ⟨f, rfl, -⟩ := ρ.vertex_eq_func.1 ha
      obtain ⟨c, rfl, rfl⟩ := ρ.vertex_eq_arg.1 hb
      exact ⟨(c, slot), ⟨hpos, f, hab⟩, rfl, rfl⟩
    -- a built-in function is no written one
    · cases congrArg Prod.fst heq
  · rintro ⟨⟨c, k⟩, ⟨hpos, f, hedge⟩, rfl, rfl⟩
    exact ⟨hpos, ρ.functionId f, (h.edges _).2 (Or.inl ⟨_, hedge, rfl⟩)⟩

/-- So the census counts the same. -/
theorem census_eq (h : Mirrors extra ρ G G') :
    CallbackStats.ofGraph G' = CallbackStats.ofGraph G := by
  have hslots : Function.Injective fun x : CallId × ℕ => (ρ.callId x.1, x.2) := fun _ _ heq => by
    obtain ⟨hcall, hslot⟩ := Prod.mk.inj heq
    exact Prod.ext (ρ.callId_injective hcall) hslot
  have hcalls : Prod.fst '' ((fun x : CallId × ℕ => (ρ.callId x.1, x.2)) '' G.callbackSet) =
      ρ.callId '' (Prod.fst '' G.callbackSet) := by
    rw [Set.image_image, Set.image_image]
  rw [CallbackStats.ofGraph_eq, CallbackStats.ofGraph_eq, h.callbackSet_eq, hcalls,
    Set.ncard_image_of_injective _ hslots, Set.ncard_image_of_injective _ ρ.callId_injective]

end FlowGraph.Mirrors

end CallFlow
