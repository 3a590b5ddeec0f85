import CallFlow.Proofs.Propagation.Termination

/-!
# Rounds until nothing is added

`Grown program G H` says what rounds make of a graph: they only add, and everything they add is
justified. The last round of a run adds no edge; what such a round leaves is `Settled`.
-/

namespace CallFlow

open Round (Open)

namespace Propagation

variable {program : Program} {G H : FlowGraph}

/-! ## What rounds preserve -/

/-- What some rounds have made of `G`. Every set that has the edges of `G` and all transfers into
vertices of `G` that are flagged there or wanted in the set has all edges of `H`. -/
structure Grown (program : Program) (G H : FlowGraph) : Prop where
  keeps : ∀ v, G.Has v → H.Has v
  fresh : ∀ v, H.Has v → G.Has v ∨ (∃ f, v = .ret f) ∨ ∃ c slot, v = .arg c slot
  grows : G.edgeSet ⊆ H.edgeSet
  flags : ∀ v, G.Flagged v → H.Flagged v
  flagged : ∀ v, H.Flagged v → G.Flagged v ∨ Markable program v ∧ Wanted H.edgeSet v
  least : ∀ E, G.edgeSet ⊆ E →
    (∀ f c a b, Flows E (.func f) (.callee c) → Transfer program f c a b → G.Has b →
      G.Flagged b ∨ Wanted E b → (a, b) ∈ E) → H.edgeSet ⊆ E

namespace Grown

/-- Before the first round nothing has been added. -/
theorem refl (program : Program) (G : FlowGraph) : Grown program G G where
  keeps := fun _ h => h
  fresh := fun _ h => Or.inl h
  grows := Set.Subset.rfl
  flags := fun _ h => h
  flagged := fun _ h => Or.inl h
  least := fun _ h _ => h

/-- Rounds add no vertices that may be flagged. -/
theorem has_markable (h : Grown program G H) {v : Vertex} (hv : Markable program v)
    (hH : H.Has v) : G.Has v := by
  rcases h.fresh v hH with hG | ⟨f, rfl⟩ | ⟨c, slot, rfl⟩
  · exact hG
  · cases hv
  · cases hv

/-- No call is added, so that all stay registered. -/
theorem calleesRegistered (h : Grown program G H) (hreg : CalleesRegistered program G) :
    CalleesRegistered program H := by
  intro c hc
  rcases h.fresh _ hc with hG | ⟨f, hf⟩ | ⟨c', slot, harg⟩
  · exact hreg c hG
  · cases hf
  · cases harg

/-- One more round. -/
theorem round (h : Grown program G H) (hreg : CalleesRegistered program G) :
    Grown program G (Round.run program H).graph := by
  obtain ⟨hsince, hflags, hedges⟩ := Round.run_spec (h.calleesRegistered hreg)
  exact
    { keeps := fun v hv => by
        obtain ⟨id, hid⟩ := h.keeps v hv
        exact ⟨id, hsince.keeps v id hid⟩
      -- a new vertex is what an argument or a result flows out of
      fresh := fun v hv => (hsince.fresh v hv).elim (h.fresh v) Or.inr
      grows := h.grows.trans hsince.grows
      flags := fun v hv => hsince.flags v (h.flags v hv)
      flagged := fun v hv => by
        rcases (hflags v).1 hv with hold | ⟨hmarkable, hwanted⟩
        · exact (h.flagged v hold).imp_right (And.imp_right (Wanted.mono hsince.grows))
        · exact Or.inr ⟨hmarkable, hwanted.mono hsince.grows⟩
      least := fun E hG hE => by
        have hH := h.least E hG hE
        rintro ⟨a, b⟩ hab
        rcases (hedges a b).1 hab with hold | ⟨f, c, hflow, htransfer, hopen⟩
        · exact hH hold
        · -- what justified the new edge at the start of the round is in `E` too
          have hmarkable := htransfer.markable
          have hhas : H.Has b := hopen.elim FlowGraph.Flagged.has (Wanted.has hmarkable)
          refine hE f c a b (hflow.mono hH) htransfer (h.has_markable hmarkable hhas) ?_
          rcases hopen with hflag | hwanted
          · exact (h.flagged b hflag).imp_right fun hb => hb.2.mono hH
          · exact Or.inr (hwanted.mono hH) }

end Grown

/-- Any number of rounds. -/
theorem Grown.rounds (h : Grown program G H) (hreg : CalleesRegistered program G) (n : ℕ) :
    Grown program G (rounds program n H).1 := by
  induction n generalizing H with
  | zero => exact h
  | succ n ih => exact ih (h.round hreg)

/-! ## What the last round leaves -/

/-- Nothing is left to flag and nothing to add. -/
structure Settled (program : Program) (H : FlowGraph) : Prop where
  flagged : ∀ v, Markable program v → Wanted H.edgeSet v → H.Flagged v
  closed : ∀ f c a b, Flows H.edgeSet (.func f) (.callee c) → Transfer program f c a b →
    H.Flagged b → (a, b) ∈ H.edgeSet

/-- A round that adds no edge has seen the edges of the graph that it leaves. -/
theorem settled_run (hreg : CalleesRegistered program G)
    (hzero : (Round.run program G).outcome.edgesAdded = 0) :
    Settled program (Round.run program G).graph := by
  obtain ⟨hsince, hflags, hedges⟩ := Round.run_spec hreg
  have hsame := (hsince.quiet hzero).1
  refine ⟨fun v hmarkable hwanted => ?_, fun f c a b hflow htransfer hflag => ?_⟩
  · rw [hsame] at hwanted
    exact (hflags v).2 (Or.inr ⟨hmarkable, hwanted⟩)
  · rw [hsame] at hflow
    exact (hedges a b).2 (Or.inr ⟨f, c, hflow, htransfer, ((hflags b).1 hflag).imp_right And.right⟩)

/-- A round leaves a settled graph as it is. -/
theorem Settled.round (h : Settled program H) (hreg : CalleesRegistered program H) :
    (Round.run program H).graph = H ∧ (Round.run program H).outcome = {} := by
  obtain ⟨hsince, hflags, hedges⟩ := Round.run_spec hreg
  -- an edge that could be added has been added before
  have hadded : (Round.run program H).outcome.edgesAdded = 0 := by
    by_contra hne
    obtain ⟨⟨a, b⟩, hnew, hold⟩ := hsince.busy hne
    rcases (hedges a b).1 hnew with h' | ⟨f, c, hflow, htransfer, hopen⟩
    · exact hold h'
    · exact hold (h.closed f c a b hflow htransfer
        (hopen.elim id (h.flagged b htransfer.markable)))
  -- and so has every flag
  have hmarked : (Round.run program H).outcome.newlyInteresting = 0 := by
    by_contra hne
    obtain ⟨v, hnew, hold⟩ := hsince.flagging hne
    rcases (hflags v).1 hnew with h' | ⟨hmarkable, hwanted⟩
    · exact hold h'
    · exact hold (h.flagged v hmarkable hwanted)
  have hnothing : (Round.run program H).outcome = {} := by
    cases ho : (Round.run program H).outcome with
    | mk edgesAdded newlyInteresting =>
      rw [ho] at hadded hmarked
      rw [show edgesAdded = 0 from hadded, show newlyInteresting = 0 from hmarked]
  exact ⟨hsince.idle hnothing, hnothing⟩

/-- A run settles the graph that it grows. -/
theorem grown_run (hreg : CalleesRegistered program G) :
    Grown program G (run program G).1 ∧ Settled program (run program G).1 := by
  obtain ⟨n, -, hlast, hrun⟩ := run_eq_rounds hreg
  have hbefore := (Grown.refl program G).rounds hreg n
  rw [hrun, rounds_succ]
  exact ⟨hbefore.round hreg, settled_run (hbefore.calleesRegistered hreg) hlast⟩

/-- Every edge that a run adds is one along which a call and a function that it reaches exchange
values. -/
theorem transfer_of_mem_run (hreg : CalleesRegistered program G) {a b : Vertex}
    (hab : (a, b) ∈ (run program G).1.edgeSet) :
    (a, b) ∈ G.edgeSet ∨ ∃ f c, Flows (run program G).1.edgeSet (.func f) (.callee c) ∧
      Transfer program f c a b := by
  obtain ⟨hgrown, hsettled⟩ := grown_run hreg
  -- the edges of which this holds have all transfers that are justified in them
  refine (hgrown.least { e | e ∈ (run program G).1.edgeSet ∧ (e ∈ G.edgeSet ∨
    ∃ f c, Flows (run program G).1.edgeSet (.func f) (.callee c) ∧ Transfer program f c e.1 e.2) }
    (fun e he => ⟨hgrown.grows he, Or.inl he⟩) fun f c a b hflow htransfer _ hopen => ?_) hab |>.2
  have hflow' := hflow.mono (Set.sep_subset _ _)
  have hflag : (run program G).1.Flagged b := by
    rcases hopen with hflag | hwanted
    · exact hgrown.flags b hflag
    · exact hsettled.flagged b htransfer.markable (hwanted.mono (Set.sep_subset _ _))
  exact ⟨hsettled.closed f c a b hflow' htransfer hflag, Or.inr ⟨f, c, hflow', htransfer⟩⟩

/-- A run over a settled graph is one round that does nothing. -/
theorem Settled.run (h : Settled program H) (hreg : CalleesRegistered program H) :
    Propagation.run program H =
      (H, { rounds := 1, edgesAdded := 0, interesting := H.interestingCount }) := by
  obtain ⟨hgraph, hnothing⟩ := h.round hreg
  simp only [Propagation.run, runRounds, hgraph, hnothing, if_true]

/-- **A run computes the least fixpoint.** From a graph without flags it adds the least set of
edges that is closed under the rules on demand; it flags the results and parameters that are
wanted along the final edges, and a second run is one round that changes nothing. -/
theorem run_isLeast (hreg : CalleesRegistered program G) (hflags : ∀ v, ¬ G.Flagged v) :
    let final := (run program G).1
    IsLeast { E | G.edgeSet ⊆ E ∧ DemandClosed program G E } final.edgeSet ∧
    (∀ v, final.Flagged v ↔ Markable program v ∧ Wanted final.edgeSet v) ∧
    (Round.run program final).graph = final ∧ (Round.run program final).outcome = {} ∧
    run program final =
      (final, { rounds := 1, edgesAdded := 0, interesting := final.interestingCount }) := by
  intro final
  obtain ⟨hgrown, hsettled⟩ : Grown program G final ∧ Settled program final := grown_run hreg
  have hreg' := hgrown.calleesRegistered hreg
  obtain ⟨hgraph, hnothing⟩ := hsettled.round hreg'
  refine ⟨⟨⟨hgrown.grows, ?_⟩, ?_⟩, fun v => ⟨fun h => ?_, fun h => hsettled.flagged v h.1 h.2⟩,
    hgraph, hnothing, hsettled.run hreg'⟩
  -- what is wanted is flagged after the last round, and then its edges are there
  · intro f c a b hflow htransfer _ hwanted
    exact hsettled.closed f c a b hflow htransfer (hsettled.flagged b htransfer.markable hwanted)
  · -- nothing was flagged at the start, so only wanted transfers have been added
    rintro E ⟨hG, hE⟩
    refine hgrown.least E hG fun f c a b hflow htransfer hhas hopen => ?_
    exact hE f c a b hflow htransfer hhas (hopen.resolve_left (hflags b))
  · exact (hgrown.flagged v h).resolve_left (hflags v)

/-- In the example a run joins the argument to the parameter, which is called. -/
theorem run_isLeast_example :
    CalleesRegistered Example.program Example.graph ∧ (∀ v, ¬ Example.graph.Flagged v) ∧
    (.arg Example.outer 1, .param Example.apply 1) ∈
      (run Example.program Example.graph).1.edgeSet ∧
    (run Example.program Example.graph).1.Flagged (.param Example.apply 1) := by
  refine ⟨Example.calleesRegistered, Example.not_flagged, ?_⟩
  obtain ⟨⟨⟨hgraph, hclosed⟩, -⟩, hflags, -⟩ :=
    run_isLeast Example.calleesRegistered Example.not_flagged
  have hedge : ∀ e ∈ Example.graph.edgeSet,
      e ∈ (run Example.program Example.graph).1.edgeSet := fun e he => hgraph he
  rw [Example.edgeSet_graph] at hedge
  -- the parameter is invoked by the inner call
  have hwanted : Wanted (run Example.program Example.graph).1.edgeSet
      (.param Example.apply 1) :=
    ⟨Example.inner, .single ⟨rfl, hedge _ (by simp)⟩⟩
  -- the outer call invokes the function
  have hcall : Flows (run Example.program Example.graph).1.edgeSet (.func Example.apply)
      (.callee Example.outer) := .single ⟨rfl, hedge _ (by simp)⟩
  have hparam : Example.graph.Has (.param Example.apply 1) := by
    simp [Example.graph, FlowGraph.has_connect]
  exact ⟨hclosed _ _ _ _ hcall Example.transfer hparam hwanted,
    (hflags _).2 ⟨Example.transfer.markable, hwanted⟩⟩

end Propagation

end CallFlow
