import CallFlow.Analysis
import CallFlow.Proofs.FileFlow.Facts

/-!
# The states before any file

Without built-in functions nothing is there at first. With them a state has, for each of them, its
vertex, its property and the edge between the two, and says nothing else.
-/

namespace CallFlow

namespace Builtin

/-- What is in a graph after built-in functions have been added. -/
theorem foldl_seedOne (added : List String) (seeded : ℕ × FlowGraph) :
    let later := (added.foldl seedOne seeded).2
    (∀ v, later.Has v ↔ seeded.2.Has v ∨
      ∃ name ∈ added, v = .native name ∨ v = .prop (property name)) ∧
    (∀ e, e ∈ later.edgeSet ↔ e ∈ seeded.2.edgeSet ∨ ∃ name ∈ added, e = link name) ∧
    ∀ v, later.Flagged v ↔ seeded.2.Flagged v := by
  induction added generalizing seeded with
  | nil => exact ⟨by simp, by simp, fun _ => Iff.rfl⟩
  | cons name added ih =>
    obtain ⟨hhas, hedges, hflags⟩ := ih (seedOne seeded name)
    refine ⟨fun v => ?_, fun e => ?_, fun v => ?_⟩
    -- the name at the front adds its two vertices, and the induction the rest
    · rw [List.foldl_cons, hhas, List.exists_mem_cons_iff, ← or_assoc]
      exact or_congr_left (FlowGraph.has_connect ..)
    -- a built-in function is not its property, so there is an edge between them
    · have hone : (seedOne seeded name).2.edgeSet = insert (link name) seeded.2.edgeSet :=
        FlowGraph.edgeSet_connect _ nofun
      rw [List.foldl_cons, hedges, hone, List.exists_mem_cons_iff, Set.mem_insert_iff, ← or_assoc,
        or_comm (a := e = link name)]
    · exact (hflags v).trans (FlowGraph.flagged_connect ..)

theorem find?_foldl_seedOne (added : List String) (seeded : ℕ × FlowGraph) {v : Vertex}
    {id : VertexId} (hv : seeded.2.find? v = some id) :
    (added.foldl seedOne seeded).2.find? v = some id := by
  induction added generalizing seeded with
  | nil => exact hv
  | cons name added ih => exact ih _ (FlowGraph.find?_connect_of_find? _ _ hv)

variable (graph : FlowGraph)

/-- What is in a graph after all built-in functions have been added. -/
theorem seed_spec :
    (∀ v, (seed graph).2.Has v ↔ graph.Has v ∨
      ∃ name ∈ names, v = .native name ∨ v = .prop (property name)) ∧
    (∀ e, e ∈ (seed graph).2.edgeSet ↔ e ∈ graph.edgeSet ∨ ∃ name ∈ names, e = link name) ∧
    ∀ v, (seed graph).2.Flagged v ↔ graph.Flagged v := by
  rw [seed]
  exact foldl_seedOne names (0, graph)

/-- Vertices keep their numbers. -/
theorem find?_seed {v : Vertex} {id : VertexId} (hv : graph.find? v = some id) :
    (seed graph).2.find? v = some id := by
  rw [seed]
  exact find?_foldl_seedOne names (0, graph) hv

end Builtin

namespace FlowState

/-- The graph has these built-in functions and nothing else. -/
structure Seeded (names : Set String) (graph : FlowGraph) : Prop where
  has : ∀ v, graph.Has v ↔
    ∃ name ∈ names, v = .native name ∨ v = .prop (Builtin.property name)
  edges : ∀ e, e ∈ graph.edgeSet ↔ ∃ name ∈ names, e = Builtin.link name
  flagged : ∀ v, ¬ graph.Flagged v

namespace Seeded

variable {names : Set String} {graph : FlowGraph}

/-- The state says of its built-in functions what there is to say. -/
theorem facts (h : Seeded names graph) (x : Fact) :
    ({ graph } : FlowState).Says x ↔ Builtin names x := by
  cases x with
  -- a graph alone says nothing of files, functions and calls
  | file _ _ | function _ _ | call _ _ =>
    refine iff_of_false nofun ?_
    rintro ⟨_, -, h | h | h⟩ <;> cases h
  | vertex v =>
    rw [Says, h.has]
    simp [Builtin]
  | edge e =>
    rw [Says, h.edges]
    simp [Builtin]

theorem mem_of_has (h : Seeded names graph) {name : String}
    (hname : ({ graph } : FlowState).graph.Has (.native name)) : name ∈ names := by
  obtain ⟨other, hother, heq | heq⟩ := (h.has _).1 hname
  · exact Vertex.native.inj heq ▸ hother
  · cases heq

theorem sound (h : Seeded names graph) : ({ graph } : FlowState).Sound where
  functions := nofun
  calls := nofun
  vertices v hv := by
    obtain ⟨name, -, rfl | rfl⟩ := (h.has v).1 hv <;> exact trivial
  -- there are no functions to be out of order
  inOrder f _ i _ hi _ := by
    obtain ⟨name, -, h | h⟩ := (h.has _).1 ⟨i, hi⟩ <;> cases h
  unflagged := h.flagged
  root := rfl
  binds := Sound.empty.binds

/-- A state with built-in functions says nothing else than one without. -/
theorem mirrors (h : Seeded names graph) : Mirrors names .refl {} { graph } where
  sound := .empty
  sound' := h.sound
  extent := rfl
  within := Renaming.within_refl
  facts x := by
    rw [h.facts]
    simp [not_says_empty]
  -- the empty graph has none of them
  apart _ _ := FlowGraph.not_has_empty _

end Seeded

end FlowState

namespace Analysis

/-- The built-in functions that a state has from the start. -/
def builtins (natives : Bool) : Set String := { name | natives = true ∧ name ∈ Builtin.names }

theorem mem_builtins {natives : Bool} {name : String} :
    name ∈ builtins natives ↔ natives = true ∧ name ∈ Builtin.names :=
  Iff.rfl

/-- Seeding the empty graph gives the vertices and the edges of all names. -/
theorem seeded_seed :
    FlowState.Seeded (builtins true) (Builtin.seed FlowGraph.empty).2 := by
  obtain ⟨hhas, hedges, hflags⟩ := Builtin.seed_spec FlowGraph.empty
  have hmem : ∀ name, name ∈ builtins true ↔ name ∈ Builtin.names := fun name => by
    rw [mem_builtins, eq_self, true_and]
  refine ⟨fun v => ?_, fun e => ?_, fun v hv => ?_⟩
  · simp only [hhas, FlowGraph.not_has_empty, false_or, hmem]
  · simp only [hedges, FlowGraph.edgeSet_empty, Set.mem_empty_iff_false, false_or, hmem]
  · exact FlowGraph.not_has_empty v ((hflags v).1 hv).has

theorem seeded_of_seed {added : ℕ} {graph : FlowGraph}
    (h : Builtin.seed FlowGraph.empty = (added, graph)) : seeded true = (added, { graph }) := by
  unfold seeded
  rw [h]
  rfl

/-- The graph is named, not computed. -/
theorem seeded_true : (seeded true).2 = { graph := (Builtin.seed FlowGraph.empty).2 } := by
  rw [seeded_of_seed (Prod.mk.eta (p := Builtin.seed FlowGraph.empty)).symm]

/-- Before any file the built-in functions are all that there is. -/
theorem mirrors_seeded :
    FlowState.Mirrors (builtins true) .refl (seeded false).2 (seeded true).2 := by
  rw [seeded_true]
  exact seeded_seed.mirrors

theorem sound_seeded (natives : Bool) : (seeded natives).2.Sound := by
  cases natives with
  | false => exact mirrors_seeded.sound
  | true => exact mirrors_seeded.sound'

/-- At the start a built-in function is there only if it has been asked for. -/
theorem has_native_seeded {natives : Bool} {name : String}
    (h : (seeded natives).2.graph.Has (.native name)) : name ∈ builtins natives := by
  cases natives with
  | false => exact absurd h (FlowGraph.not_has_empty _)
  | true =>
    rw [seeded_true] at h
    exact seeded_seed.mem_of_has h

end Analysis

end CallFlow
