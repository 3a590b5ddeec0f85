import CallFlow.Proofs.Propagation.Extension

/-!
# The rounds end

Rounds are run until one of them adds no edge, and no count of them is kept. What bounds them is
the list of all transfers between a function and a call: the edges that rounds add are taken from
it, whatever vertices come in meanwhile, and each round but the last adds one. The fuel of a run is
the length of that list and one more, hence it is never used up.
-/

namespace CallFlow.Propagation

open FlowGraph

variable {program : Program} {G : FlowGraph}

/-! ## The edges that rounds may add -/

/-- All transfers between the functions and the calls of a program. -/
def candidates (program : Program) : List (Vertex × Vertex) :=
  program.functionIds.flatMap fun f => program.callIds.flatMap (transfers program f)

/-- All that may be passed is on the list. -/
theorem mem_candidates {f : FunctionId} {c : CallId} {a b : Vertex}
    (h : Transfer program f c a b) : (a, b) ∈ candidates program := by
  have hf : f ∈ program.functionIds := by
    cases h with
    | result hf _ | argument hf _ _ => exact (Round.mem_functionIds f).2 ⟨_, hf⟩
  have hc : c ∈ program.callIds := by
    cases h with
    | result _ hc | argument _ hc _ => exact (Round.mem_callIds c).2 ⟨_, hc⟩
  exact List.mem_flatMap.2 ⟨f, hf, List.mem_flatMap.2 ⟨c, hc, mem_transfers.2 h⟩⟩

/-- The number of transfers between a function and a call, if there are such. -/
def transferCount : Option Function → Option CallSite → Nat
  | some f, some c => pairBound f c
  | _, _ => 0

/-- There are as many transfers as the bound for the pair says. -/
theorem length_transfers (f : FunctionId) (c : CallId) :
    (transfers program f c).length = transferCount (program.function? f) (program.call? c) := by
  rw [transfers]
  split
  · next function site hf hc =>
    rw [hf, hc, transferCount, pairBound, List.length_cons, List.length_map, List.length_range]
    omega
  · next hnone =>
    cases hf : program.function? f with
    | none => rfl
    | some function =>
      cases hc : program.call? c with
      | none => rfl
      | some site => exact absurd hc (hnone function site hf)

theorem map_functionIds {α : Type} (g : Option Function → α) (program : Program) :
    program.functionIds.map (fun f => g (program.function? f)) =
      program.functions.toList.map fun f => g (some f) := by
  refine List.ext_getElem (by simp [Program.functionIds]) fun i hi hi' => ?_
  simp only [List.length_map, Array.length_toList] at hi'
  simp [Program.functionIds, Program.function?, hi']

theorem map_callIds {α : Type} (g : Option CallSite → α) (program : Program) :
    program.callIds.map (fun c => g (program.call? c)) =
      program.calls.toList.map fun c => g (some c) := by
  refine List.ext_getElem (by simp [Program.callIds]) fun i hi hi' => ?_
  simp only [List.length_map, Array.length_toList] at hi'
  simp [Program.callIds, Program.call?, hi']

/-- The fuel of a run, added up over the functions and the calls. -/
theorem edgeBound_eq (program : Program) :
    edgeBound program = (program.functions.toList.map fun f =>
      (program.calls.toList.map fun c => pairBound f c).sum).sum := by
  rw [show edgeBound program = (program.functions.toList.flatMap fun f =>
    program.calls.toList.map (pairBound f)).sum from rfl, List.flatMap_def, List.sum_flatten,
    List.map_map]
  rfl

/-- There are as many transfers as the fuel of a run allows for. -/
theorem length_candidates (program : Program) :
    (candidates program).length = edgeBound program := by
  have hcalls : ∀ f, (program.callIds.map fun c => transferCount f (program.call? c)).sum =
      (program.calls.toList.map fun c => transferCount f (some c)).sum := fun f => by
    rw [map_callIds (transferCount f)]
  calc (candidates program).length
      = (program.functionIds.map fun f =>
          (program.callIds.map fun c =>
            transferCount (program.function? f) (program.call? c)).sum).sum := by
        simp only [candidates, List.length_flatMap, length_transfers]
    _ = (program.functions.toList.map fun f =>
          (program.calls.toList.map fun c => pairBound f c).sum).sum := by
        simp only [hcalls]
        rw [map_functionIds fun f =>
          (program.calls.toList.map fun c => transferCount f (some c)).sum]
        rfl
    _ = edgeBound program := (edgeBound_eq program).symm

/-- Where all callees are those of calls of the program, what may be added is a transfer. -/
theorem Exchange.mem_candidates (hreg : CalleesRegistered program G) {a b : Vertex}
    (h : Exchange program G a b) : (a, b) ∈ candidates program := by
  cases h with
  | result hf hc =>
    obtain ⟨site, hsite⟩ := hreg _ hc
    exact Propagation.mem_candidates (.result hf hsite)
  | argument hf hc hslot =>
    obtain ⟨site, hsite⟩ := hreg _ hc
    rw [Program.argCount, hsite] at hslot
    exact Propagation.mem_candidates (.argument hf hsite hslot)

/-- Rounds add no more edges than there are transfers, since each of them is added once. -/
theorem edgesAdded_rounds_le (hreg : CalleesRegistered program G) (n : ℕ) :
    (rounds program n G).2.edgesAdded ≤ edgeBound program := by
  have h := extends_rounds program n G
  have hsub : (rounds program n G).1.edgeSet ⊆ G.edgeSet ∪ { e | e ∈ candidates program } :=
    fun e he => (h.newEdges e.1 e.2 he).imp_right (Exchange.mem_candidates hreg)
  have hcandidates : { e | e ∈ candidates program }.ncard ≤ (candidates program).length := by
    classical
    rw [← List.coe_toFinset, Set.ncard_coe_finset]
    exact List.toFinset_card_le _
  -- no new edge is counted twice, and all are candidates
  have hcount := calc G.edgeCount + (rounds program n G).2.edgesAdded
      = (rounds program n G).1.edgeSet.ncard := by rw [ncard_edgeSet, h.edgeCount]
    _ ≤ (G.edgeSet ∪ { e | e ∈ candidates program }).ncard :=
        Set.ncard_le_ncard hsub (G.finite_edgeSet.union (List.finite_toSet _))
    _ ≤ G.edgeCount + (candidates program).length := by
        rw [← ncard_edgeSet]
        exact (Set.ncard_union_le _ _).trans (Nat.add_le_add_left hcandidates _)
  rw [length_candidates] at hcount
  omega

/-! ## The last round -/

/-- Each of so many rounds adds an edge. -/
def Busy (program : Program) (n : ℕ) (G : FlowGraph) : Prop :=
  ∀ k < n, (Round.run program (rounds program k G).1).outcome.edgesAdded ≠ 0

/-- Each busy round adds an edge. -/
theorem Busy.le_edgesAdded {n : ℕ} (h : Busy program n G) :
    n ≤ (rounds program n G).2.edgesAdded := by
  induction n with
  | zero => exact Nat.zero_le _
  | succ n ih =>
    have hbefore := ih fun k hk => h k (Nat.lt_succ_of_lt hk)
    have hlast := h n (Nat.lt_succ_self n)
    rw [rounds_succ, RoundOutcome.add_edgesAdded]
    omega

/-- What so many rounds leave, counted on from `stats`. -/
def after (program : Program) (n : ℕ) (G : FlowGraph) (stats : PropagationStats) :
    FlowGraph × PropagationStats :=
  ((rounds program n G).1,
    { stats with
      rounds := stats.rounds + n
      edgesAdded := stats.edgesAdded + (rounds program n G).2.edgesAdded })

/-- A round goes before others. -/
theorem after_round (n : ℕ) (stats : PropagationStats) :
    after program n (Round.run program G).graph
      { stats with
        rounds := stats.rounds + 1
        edgesAdded := stats.edgesAdded + (Round.run program G).outcome.edgesAdded } =
      after program (n + 1) G stats := by
  simp only [after, rounds, RoundOutcome.add_edgesAdded, Nat.add_assoc, Nat.add_comm 1 n]

/-- Either all rounds that the fuel is enough for add an edge, or the last one that is run is the
first that adds none. -/
theorem runRounds_cases (program : Program) (n : ℕ) (G : FlowGraph) (stats : PropagationStats) :
    Busy program n G ∧ runRounds program n G stats = after program n G stats ∨
    ∃ k < n, Busy program k G ∧
      (Round.run program (rounds program k G).1).outcome.edgesAdded = 0 ∧
      runRounds program n G stats = after program (k + 1) G stats := by
  induction n generalizing G stats with
  | zero => exact Or.inl ⟨fun k hk => absurd hk (Nat.not_lt_zero k), rfl⟩
  | succ n ih =>
    rw [runRounds]
    split
    · next hzero =>
      refine Or.inr ⟨0, Nat.succ_pos n, fun k hk => absurd hk (Nat.not_lt_zero k), hzero, ?_⟩
      exact after_round 0 stats
    · next hadded =>
      -- one busy round before the others
      have hbusy : ∀ {k}, Busy program k (Round.run program G).graph →
          Busy program (k + 1) G := fun h k hk =>
        match k with
        | 0 => hadded
        | k + 1 => h k (Nat.lt_of_succ_lt_succ hk)
      rcases ih (Round.run program G).graph _ with ⟨h, hrun⟩ | ⟨k, hk, h, hquiet, hrun⟩
      · exact Or.inl ⟨hbusy h, hrun.trans (after_round n stats)⟩
      · exact Or.inr ⟨k + 1, Nat.succ_lt_succ hk, hbusy h, hquiet,
          hrun.trans (after_round (k + 1) stats)⟩

/-- The statistics of a run that has been so many rounds. -/
theorem run_eq_of_runRounds {n : ℕ}
    (h : runRounds program (edgeBound program + 1) G {} = after program n G {}) :
    run program G = ((rounds program n G).1,
      { rounds := n
        edgesAdded := (rounds program n G).2.edgesAdded
        interesting := (rounds program n G).1.interestingCount }) := by
  rw [run, h]
  simp only [after, Nat.zero_add]

/-- Whatever the graph, a run is rounds. -/
theorem exists_run_eq (program : Program) (G : FlowGraph) :
    ∃ n, run program G = ((rounds program n G).1,
      { rounds := n
        edgesAdded := (rounds program n G).2.edgesAdded
        interesting := (rounds program n G).1.interestingCount }) := by
  rcases runRounds_cases program (edgeBound program + 1) G {} with ⟨-, h⟩ | ⟨k, -, -, -, h⟩
  · exact ⟨_, run_eq_of_runRounds h⟩
  · exact ⟨_, run_eq_of_runRounds h⟩

/-- A run only adds, and counts the edges. -/
theorem extends_run (program : Program) (G : FlowGraph) :
    ∃ counts, Extends program G (run program G).1 counts ∧
      (run program G).2.edgesAdded = counts.edgesAdded := by
  obtain ⟨n, hrun⟩ := exists_run_eq program G
  rw [hrun]
  exact ⟨_, extends_rounds program n G, rfl⟩

/-- A run is rounds up to the first that adds no edge. -/
theorem run_eq_rounds (hreg : CalleesRegistered program G) :
    ∃ n, Busy program n G ∧
      (Round.run program (rounds program n G).1).outcome.edgesAdded = 0 ∧
      run program G = ((rounds program (n + 1) G).1,
        { rounds := n + 1
          edgesAdded := (rounds program (n + 1) G).2.edgesAdded
          interesting := (rounds program (n + 1) G).1.interestingCount }) := by
  rcases runRounds_cases program (edgeBound program + 1) G {} with ⟨hbusy, -⟩ | ⟨n, -, h⟩
  · -- so many rounds would add more edges than there are
    have := hbusy.le_edgesAdded
    have := edgesAdded_rounds_le hreg (edgeBound program + 1)
    omega
  · obtain ⟨hbusy, hquiet, hrun⟩ := h
    exact ⟨n, hbusy, hquiet, run_eq_of_runRounds hrun⟩

/-- **Propagation ends.** Whatever vertices come in while it runs: it stops after the first round
that adds no edge, at most one round later than it has added edges, and these are no more than the
functions, the calls and their slots allow for. -/
theorem run_terminates (hreg : CalleesRegistered program G) :
    let stats := (run program G).2
    (∃ n, stats.rounds = n + 1 ∧ (run program G).1 = (rounds program (n + 1) G).1 ∧
      stats.edgesAdded = (rounds program (n + 1) G).2.edgesAdded ∧
      (∀ k < n, (Round.run program (rounds program k G).1).outcome.edgesAdded ≠ 0) ∧
      (Round.run program (rounds program n G).1).outcome.edgesAdded = 0) ∧
    stats.rounds ≤ 1 + stats.edgesAdded ∧
    stats.edgesAdded ≤ (program.functions.toList.map fun f =>
      (program.calls.toList.map fun c => 2 + min f.paramCount c.argCount).sum).sum := by
  obtain ⟨n, hbusy, hquiet, hrun⟩ := run_eq_rounds hreg
  rw [hrun]
  refine ⟨⟨n, rfl, rfl, rfl, hbusy, hquiet⟩, ?_, ?_⟩
  · have := hbusy.le_edgesAdded
    simp only [rounds_succ, RoundOutcome.add_edgesAdded]
    omega
  · exact (edgesAdded_rounds_le hreg (n + 1)).trans_eq (edgeBound_eq program)

/-- A run that adds the vertex of the argument: a first round adds the edge out of it, a second
one adds nothing. -/
theorem run_terminates_example :
    CalleesRegistered Example.program Example.unfilled ∧
    ¬ Example.unfilled.Has (.arg Example.outer 1) ∧
    (run Example.program Example.unfilled).1.Has (.arg Example.outer 1) ∧
    (run Example.program Example.unfilled).2 =
      { rounds := 2, edgesAdded := 1, interesting := 1 } ∧
    (run Example.program Example.unfilled).2.rounds ≤
      1 + (run Example.program Example.unfilled).2.edgesAdded ∧
    (run Example.program Example.unfilled).2.edgesAdded ≤ 9 := by
  have hbounds := (run_terminates Example.calleesRegistered_unfilled).2
  have hfound : (run Example.program Example.unfilled).1.find? (.arg Example.outer 1) =
      some ⟨4⟩ := by decide +kernel
  refine ⟨Example.calleesRegistered_unfilled, ?_, ⟨_, hfound⟩, by decide +kernel, hbounds.1,
    hbounds.2.trans (by decide +kernel)⟩
  simp [Example.unfilled, has_connect]

end CallFlow.Propagation
