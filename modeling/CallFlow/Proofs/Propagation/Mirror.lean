import CallFlow.Proofs.Propagation.Fixpoint
import CallFlow.Proofs.Renaming.Mirror

/-!
# Propagation under a renaming

What a round flags and adds is told by what flows in the graph at its start, so rounds over
mirrored graphs leave mirrored graphs and count the same. A run has as much fuel in the one
program as in the other, since that depends on the sizes of functions and calls only.
-/

namespace CallFlow

theorem Markable.ne_native {p : Program} {v : Vertex} (hv : Markable p v) (name : String) :
    v ≠ .native name := by
  cases hv <;> exact nofun

namespace Propagation

variable {ρ : Renaming} {p p' : Program}

/-- What may be passed is renamed. -/
theorem transfers_renamed (h : p.Renamed ρ p') (f : FunctionId) (c : CallId) :
    transfers p' (ρ.functionId f) (ρ.callId c) = (transfers p f c).map ρ.edge := by
  rw [transfers, transfers, h.function?, h.call?]
  cases p.function? f with
  | none => rfl
  | some function =>
    cases p.call? c with
    | none => rfl
    | some site =>
      simp only [Option.map_some, List.map_cons, List.map_map]
      rfl

/-- The transfers between functions and calls are those of the other program. -/
theorem candidates_perm (h : p.Renamed ρ p') :
    (candidates p').Perm ((candidates p).map ρ.edge) := by
  have hcalls : ∀ f, (p'.callIds.flatMap (transfers p' (ρ.functionId f))).Perm
      ((p.callIds.flatMap (transfers p f)).map ρ.edge) := fun f => by
    refine (h.callIds_perm.flatMap_right _).trans ?_
    simp only [List.flatMap_map, List.map_flatMap, transfers_renamed h]
    exact .refl _
  refine (h.functionIds_perm.flatMap_right _).trans ?_
  rw [List.flatMap_map, candidates, List.map_flatMap]
  exact List.Perm.flatMap_left _ fun f _ => hcalls f

theorem edgeBound_renamed (h : p.Renamed ρ p') : edgeBound p' = edgeBound p := by
  rw [← length_candidates, ← length_candidates, (candidates_perm h).length_eq, List.length_map]

end Propagation

namespace FlowGraph.Mirrors

variable {extra : Set String} {ρ : Renaming} {p p' : Program} {G G' : FlowGraph}

/-- A renamed vertex is flagged as the vertex is. -/
theorem flagged_vertex_iff (h : Mirrors extra ρ G G') {v : Vertex} :
    G'.Flagged (ρ.vertex v) ↔ G.Flagged v := by
  rw [h.flagged]
  constructor
  · rintro ⟨w, hw, heq⟩
    rwa [← ρ.vertex_injective heq]
  · exact fun hv => ⟨v, hv, rfl⟩

theorem open_iff (h : Mirrors extra ρ G G') {v : Vertex} (hv : Markable p v) :
    Round.Open G' (ρ.vertex v) ↔ Round.Open G v :=
  or_congr h.flagged_vertex_iff (h.wanted_iff fun name _ => hv.ne_native name)

/-- The edges that a round leaves. -/
theorem edges_round (h : Mirrors extra ρ G G') (hp : p.Renamed ρ p')
    (hreg : CalleesRegistered p G) (e' : Vertex × Vertex) :
    e' ∈ (Round.run p' G').graph.edgeSet ↔
      (∃ e ∈ (Round.run p G).graph.edgeSet, ρ.edge e = e') ∨
        ∃ name ∈ extra, Builtin.link name = e' := by
  obtain ⟨-, -, hedges⟩ := Round.run_spec hreg
  obtain ⟨-, -, hedges'⟩ := Round.run_spec (h.calleesRegistered hp hreg)
  obtain ⟨a', b'⟩ := e'
  rw [hedges' a' b', h.edges]
  constructor
  · rintro ((⟨⟨a, b⟩, hab, heq⟩ | hextra) | ⟨f', c', hflow, htransfer, hopen⟩)
    · exact Or.inl ⟨(a, b), (hedges a b).2 (Or.inl hab), heq⟩
    · exact Or.inr hextra
    · -- a new edge is a transfer along a flow that the other graph has too
      obtain ⟨f, c, a, b, ht, rfl, rfl, rfl, rfl⟩ := hp.transfer_iff.1 htransfer
      refine Or.inl ⟨(a, b), (hedges a b).2 (Or.inr ⟨f, c, ?_, ht, ?_⟩), rfl⟩
      · exact (h.flows_callee_iff (v := .func f) fun _ _ => nofun).1 hflow
      · exact (h.open_iff ht.markable).1 hopen
  · rintro (⟨⟨a, b⟩, hab, heq⟩ | hextra)
    · rcases (hedges a b).1 hab with hold | ⟨f, c, hflow, ht, hopen⟩
      · exact Or.inl (Or.inl ⟨(a, b), hold, heq⟩)
      · obtain ⟨rfl, rfl⟩ := Prod.mk.inj heq
        refine Or.inr ⟨ρ.functionId f, ρ.callId c, ?_,
          hp.transfer_iff.2 ⟨f, c, a, b, ht, rfl, rfl, rfl, rfl⟩, (h.open_iff ht.markable).2 hopen⟩
        exact (h.flows_callee_iff (v := .func f) fun _ _ => nofun).2 hflow
    · exact Or.inl (Or.inr hextra)

/-- The vertices that a round leaves. -/
theorem vertices_round (h : Mirrors extra ρ G G') (hp : p.Renamed ρ p')
    (hreg : CalleesRegistered p G) (v' : Vertex) :
    (Round.run p' G').graph.Has v' ↔ (∃ v, (Round.run p G).graph.Has v ∧ ρ.vertex v = v') ∨
      ∃ name ∈ extra, v' = .native name ∨ v' = .prop (Builtin.property name) := by
  have hedges := h.edges_round hp hreg
  rw [Propagation.has_round, h.vertices]
  constructor
  · -- a vertex that is new has an edge out of it
    rintro ((⟨v, hv, heq⟩ | hextra) | ⟨w', hedge⟩)
    · exact Or.inl ⟨v, (Propagation.has_round p G v).2 (Or.inl hv), heq⟩
    · exact Or.inr hextra
    · rcases (hedges _).1 hedge with ⟨⟨v, w⟩, hvw, heq⟩ | ⟨name, hname, heq⟩
      · exact Or.inl ⟨v, (has_of_mem_edgeSet hvw).1, congrArg Prod.fst heq⟩
      · exact Or.inr ⟨name, hname, Or.inl (congrArg Prod.fst heq).symm⟩
  · rintro (⟨v, hv, heq⟩ | hextra)
    -- a vertex was there before or has a new edge out of it
    · rcases (Propagation.has_round p G v).1 hv with hold | ⟨w, hvw⟩
      · exact Or.inl (Or.inl ⟨v, hold, heq⟩)
      · exact Or.inr ⟨ρ.vertex w, (hedges _).2 (Or.inl ⟨(v, w), hvw, congrArg (·, _) heq⟩)⟩
    · exact Or.inl (Or.inr hextra)

/-- The flags that a round leaves. -/
theorem flagged_round (h : Mirrors extra ρ G G') (hp : p.Renamed ρ p')
    (hreg : CalleesRegistered p G) (v' : Vertex) :
    (Round.run p' G').graph.Flagged v' ↔
      ∃ v, (Round.run p G).graph.Flagged v ∧ ρ.vertex v = v' := by
  obtain ⟨-, hflags, -⟩ := Round.run_spec hreg
  obtain ⟨-, hflags', -⟩ := Round.run_spec (h.calleesRegistered hp hreg)
  rw [hflags', h.flagged]
  constructor
  · rintro (⟨v, hv, heq⟩ | ⟨hmarkable, hwanted⟩)
    · exact ⟨v, (hflags v).2 (Or.inl hv), heq⟩
    -- what is wanted in one graph is wanted in the other
    · obtain ⟨v, hv, rfl⟩ := hp.markable_iff.1 hmarkable
      have hsame := h.wanted_iff fun name _ => hv.ne_native name
      exact ⟨v, (hflags v).2 (Or.inr ⟨hv, hsame.1 hwanted⟩), rfl⟩
  · rintro ⟨v, hv, rfl⟩
    rcases (hflags v).1 hv with hold | ⟨hmarkable, hwanted⟩
    · exact Or.inl ⟨v, hold, rfl⟩
    · have hsame := h.wanted_iff fun name _ => hmarkable.ne_native name
      exact Or.inr ⟨hp.markable_iff.2 ⟨v, hmarkable, rfl⟩, hsame.2 hwanted⟩

/-- **A round over mirrored graphs** leaves mirrored graphs. -/
theorem round (h : Mirrors extra ρ G G') (hp : p.Renamed ρ p') (hreg : CalleesRegistered p G) :
    Mirrors extra ρ (Round.run p G).graph (Round.run p' G').graph where
  vertices := h.vertices_round hp hreg
  edges := h.edges_round hp hreg
  flagged := h.flagged_round hp hreg
  apart name hname hhas := by
    obtain ⟨hsince, -, -⟩ := Round.run_spec hreg
    -- all that a round adds are returns and arguments
    rcases hsince.fresh _ hhas with hold | ⟨f, hf⟩ | ⟨c, slot, harg⟩
    · exact h.apart name hname hold
    · cases hf
    · cases harg

/-- Since the edges correspond, so do their numbers. -/
theorem edgesAdded_round (h : Mirrors extra ρ G G') (hp : p.Renamed ρ p')
    (hreg : CalleesRegistered p G) :
    (Round.run p' G').outcome.edgesAdded = (Round.run p G).outcome.edgesAdded := by
  -- the graphs differ by as many edges after the round as before it
  have hbefore := h.edgeCount_eq
  have hafter := (h.round hp hreg).edgeCount_eq
  rw [(Propagation.extends_round p G).edgeCount,
    (Propagation.extends_round p' G').edgeCount] at hafter
  omega

/-- As many rounds over mirrored graphs count the same. -/
theorem runRounds (h : Mirrors extra ρ G G') (hp : p.Renamed ρ p')
    (hreg : CalleesRegistered p G) (n : ℕ) (stats : PropagationStats) :
    (Propagation.runRounds p' n G' stats).2 = (Propagation.runRounds p n G stats).2 ∧
      Mirrors extra ρ (Propagation.runRounds p n G stats).1
        (Propagation.runRounds p' n G' stats).1 := by
  induction n generalizing G G' stats with
  | zero => exact ⟨rfl, h⟩
  | succ n ih =>
    rw [Propagation.runRounds, Propagation.runRounds]
    rw [h.edgesAdded_round hp hreg]
    split
    · exact ⟨rfl, h.round hp hreg⟩
    · exact ih (h.round hp hreg)
        (((Propagation.Grown.refl p G).round hreg).calleesRegistered hreg) _

/-- **Propagation under a renaming.** A run over mirrored graphs takes as many rounds, adds as
many edges, flags as many vertices, and leaves mirrored graphs. -/
theorem propagate (h : Mirrors extra ρ G G') (hp : p.Renamed ρ p')
    (hreg : CalleesRegistered p G) :
    (Propagation.run p' G').2 = (Propagation.run p G).2 ∧
      Mirrors extra ρ (Propagation.run p G).1 (Propagation.run p' G').1 := by
  obtain ⟨hstats, hgraph⟩ := h.runRounds hp hreg (Propagation.edgeBound p + 1) {}
  rw [Propagation.run, Propagation.run, Propagation.edgeBound_renamed hp]
  exact ⟨by dsimp only; rw [hstats, hgraph.interestingCount_eq], hgraph⟩

end FlowGraph.Mirrors

end CallFlow
