import CallFlow.Proofs.Flow.Counting
import CallFlow.Proofs.Propagation.Round

/-!
# Rounds only add

Whatever the graph that a round is given, callees of unknown calls included: it takes nothing away,
what it adds is of a few kinds only, and its counts are exact. `Extends` says so of two graphs and
two counts. It holds of the elementary steps and is transitive, counts being summed, hence it holds
of a round and of any number of them.
-/

namespace CallFlow

/-- The number of arguments of a call, zero where the program has no such call. -/
def Program.argCount (program : Program) (c : CallId) : ℕ :=
  ((program.call? c).map CallSite.argCount).getD 0

/-- The edges that rounds over `graph` may add: between a function of the program and a call whose
callee the graph has, from result to result, and from argument to parameter of one slot that both
of them have. -/
inductive Exchange (program : Program) (graph : FlowGraph) : Vertex → Vertex → Prop
  | result {f : FunctionId} {function : Function} {c : CallId}
      (hf : program.function? f = some function) (hc : graph.Has (.callee c)) :
      Exchange program graph (.ret f) (.res c)
  | argument {f : FunctionId} {function : Function} {c : CallId} {slot : ℕ}
      (hf : program.function? f = some function) (hc : graph.Has (.callee c))
      (hslot : slot ≤ min function.paramCount (program.argCount c)) :
      Exchange program graph (.arg c slot) (.param f slot)

/-- Counts of rounds that follow each other are summed. -/
instance : Add RoundOutcome where
  add a b := ⟨a.edgesAdded + b.edgesAdded, a.newlyInteresting + b.newlyInteresting⟩

namespace Propagation

/-- `H` is `G` with some edges and flags more, as counted. Numbers stay with their vertices, lists
of successors grow at their end, flags are not cleared. The edges are exchanges, the vertices are
the sources of such edges, and only results and parameters are flagged. -/
structure Extends (program : Program) (G H : FlowGraph) (counts : RoundOutcome) : Prop where
  vertices : ∀ id v, G.vertex? id = some v → H.vertex? id = some v
  successors : ∀ id, (G.successors id).toList <+: (H.successors id).toList
  flags : ∀ id, G.isInteresting id = true → H.isInteresting id = true
  newEdges : ∀ a b, (a, b) ∈ H.edgeSet → (a, b) ∈ G.edgeSet ∨ Exchange program G a b
  newVertices : ∀ v, H.Has v → G.Has v ∨ ∃ w, (v, w) ∈ H.edgeSet ∧ Exchange program G v w
  newFlags : ∀ v, H.Flagged v → G.Flagged v ∨ Markable program v
  edgeCount : H.edgeCount = G.edgeCount + counts.edgesAdded
  interestingCount : H.interestingCount = G.interestingCount + counts.newlyInteresting

/-- So many rounds, and what they have counted. -/
def rounds (program : Program) : ℕ → FlowGraph → FlowGraph × RoundOutcome
  | 0, graph => (graph, {})
  | n + 1, graph =>
    let round := Round.run program graph
    let later := rounds program n round.graph
    (later.1, round.outcome + later.2)

end Propagation

namespace RoundOutcome

@[simp]
theorem add_edgesAdded (a b : RoundOutcome) :
    (a + b).edgesAdded = a.edgesAdded + b.edgesAdded := rfl

@[simp]
theorem add_newlyInteresting (a b : RoundOutcome) :
    (a + b).newlyInteresting = a.newlyInteresting + b.newlyInteresting := rfl

@[simp]
theorem zero_add (a : RoundOutcome) : {} + a = a :=
  congrArg₂ mk (Nat.zero_add _) (Nat.zero_add _)

theorem add_assoc (a b c : RoundOutcome) : a + b + c = a + (b + c) :=
  congrArg₂ mk (Nat.add_assoc ..) (Nat.add_assoc ..)

end RoundOutcome

namespace Propagation

open FlowGraph

variable {program : Program} {G H K : FlowGraph} {counts later : RoundOutcome}

namespace Extends

/-- Nothing has been done. -/
theorem refl (program : Program) (G : FlowGraph) : Extends program G G {} where
  vertices _ _ h := h
  successors _ := List.prefix_rfl
  flags _ h := h
  newEdges _ _ h := Or.inl h
  newVertices _ h := Or.inl h
  newFlags _ h := Or.inl h
  edgeCount := rfl
  interestingCount := rfl

/-- A vertex keeps its number. -/
theorem find? (h : Extends program G H counts) {v : Vertex} {id : VertexId}
    (hv : G.find? v = some id) : H.find? v = some id := by
  rw [find?_eq_some_iff] at hv ⊢
  exact h.vertices id v hv

theorem has (h : Extends program G H counts) {v : Vertex} (hv : G.Has v) : H.Has v :=
  hv.imp fun _ => h.find?

/-- Edges stay. -/
theorem edgeSet (h : Extends program G H counts) : G.edgeSet ⊆ H.edgeSet := by
  rintro ⟨a, b⟩ hab
  obtain ⟨s, t, ha, hb, hedge⟩ := mem_edgeSet.1 hab
  have hlisted : t ∈ (H.successors s).toList :=
    (h.successors s).subset (Array.mem_toList_iff.2 (mem_successors.2 hedge))
  have hedge' : H.hasEdge s t = true := mem_successors.1 (Array.mem_toList_iff.1 hlisted)
  exact mem_edgeSet.2 ⟨s, t, h.find? ha, h.find? hb, hedge'⟩

/-- No callee is added, it would be the source of an exchange. -/
theorem has_callee (h : Extends program G H counts) {c : CallId} (hc : H.Has (.callee c)) :
    G.Has (.callee c) := by
  rcases h.newVertices _ hc with hold | ⟨w, -, hexchange⟩
  · exact hold
  · cases hexchange

/-- What may be added later might have been added at the start. -/
theorem exchange (h : Extends program G H counts) {a b : Vertex} (hab : Exchange program H a b) :
    Exchange program G a b := by
  cases hab with
  | result hf hc => exact .result hf (h.has_callee hc)
  | argument hf hc hslot => exact .argument hf (h.has_callee hc) hslot

/-- What two parts of a round add is put together. -/
theorem trans (h : Extends program G H counts) (h' : Extends program H K later) :
    Extends program G K (counts + later) where
  vertices id v hv := h'.vertices id v (h.vertices id v hv)
  successors id := (h.successors id).trans (h'.successors id)
  flags id hid := h'.flags id (h.flags id hid)
  newEdges a b hab := by
    rcases h'.newEdges a b hab with hH | hnew
    · exact h.newEdges a b hH
    · exact Or.inr (h.exchange hnew)
  newVertices v hv := by
    -- a vertex is new because of an edge, which stays
    rcases h'.newVertices v hv with hH | ⟨w, hedge, hnew⟩
    · exact (h.newVertices v hH).imp_right fun ⟨w, hedge, hnew⟩ => ⟨w, h'.edgeSet hedge, hnew⟩
    · exact Or.inr ⟨w, hedge, h.exchange hnew⟩
  newFlags v hv := (h'.newFlags v hv).elim (h.newFlags v) Or.inr
  edgeCount := by
    rw [h'.edgeCount, h.edgeCount, RoundOutcome.add_edgesAdded, Nat.add_assoc]
  interestingCount := by
    rw [h'.interestingCount, h.interestingCount, RoundOutcome.add_newlyInteresting, Nat.add_assoc]

/-! ## Elementary steps -/

/-- A flag is set on a vertex that may have one. -/
theorem flag {v : Vertex} {id : VertexId} (hv : G.find? v = some id)
    (hflag : ¬ G.isInteresting id = true) (hmarkable : Markable program v) :
    Extends program G (G.flag id) ⟨0, 1⟩ where
  vertices other w hw := by rwa [vertex?_flag]
  successors other := by rw [successors_flag]
  flags other h := (G.isInteresting_flag id other).2 (Or.inl h)
  newEdges _ _ h := Or.inl h
  newVertices _ h := Or.inl h
  newFlags w hw := by
    rcases (flagged_flag hv w).1 hw with hold | rfl
    · exact Or.inl hold
    · exact Or.inr hmarkable
  edgeCount := rfl
  interestingCount := interestingCount_flag hv hflag

/-- An edge is added together with its source, if that is new. -/
theorem join {a b : Vertex} {t : VertexId} (hb : G.find? b = some t)
    (hab : Exchange program G a b) :
    let joined := (G.intern a).2.addEdge (G.intern a).1 t
    Extends program G joined.2 ⟨if joined.1 then 1 else 0, 0⟩ := by
  intro joined
  have hne : a ≠ b := by cases hab <;> nofun
  obtain ⟨-, -, hedges, hfind, hflags⟩ := join_spec hb hne
  exact
    { vertices := fun id v hv => by
        rw [vertex?_addEdge]
        exact vertex?_intern hv
      successors := fun id => by
        rw [← successors_intern G a id]
        exact successors_addEdge_prefix _ _ _ id
      flags := fun id h => by rwa [isInteresting_addEdge, isInteresting_intern]
      newEdges := fun x y hxy => by
        -- the only new edge is the one that is added
        rcases hedges.le hxy with heq | hold
        · obtain ⟨rfl, rfl⟩ := Prod.mk.inj heq
          exact Or.inr hab
        · exact Or.inl hold
      newVertices := fun v ⟨id, hid⟩ => by
        have hid := (hfind v).symm.trans hid
        split at hid
        · next hv => exact Or.inr ⟨b, hedges.ge (hv ▸ Set.mem_insert _ _), hv ▸ hab⟩
        · exact Or.inl ⟨id, hid⟩
      newFlags := fun v hv => Or.inl ((hflags v).1 hv)
      edgeCount := (edgeCount_addEdge _ _ _).trans (by rw [edgeCount_intern])
      interestingCount := interestingCount_congr hflags }

/-! ## Steps of a round -/

variable {round : Round}

/-- A vertex is flagged or not. -/
theorem markIfDemanded (h : Extends program G round.graph round.outcome) {v : Vertex}
    (hv : Markable program v) :
    Extends program G (round.markIfDemanded v).graph (round.markIfDemanded v).outcome := by
  rw [Round.markIfDemanded]
  split
  · exact h
  · next id hfind =>
    split
    · exact h
    · next hflag =>
      dsimp only
      split
      · exact h.trans (flag hfind hflag hv)
      · exact h

/-- An edge is added or not. -/
theorem connectDemanded (h : Extends program G round.graph round.outcome) {a b : Vertex}
    (hab : Exchange program round.graph a b) :
    Extends program G (round.connectDemanded a b).graph (round.connectDemanded a b).outcome := by
  rw [Round.connectDemanded]
  split
  · exact h
  · next t hfind =>
    split
    · exact h.trans (join hfind hab)
    · exact h

/-- A list of steps each of which only adds. -/
theorem foldl {α : Type} {step : Round → α → Round} {as : List α}
    (h : Extends program G round.graph round.outcome)
    (hstep : ∀ a ∈ as, ∀ round : Round, Extends program G round.graph round.outcome →
      Extends program G (step round a).graph (step round a).outcome) :
    Extends program G (as.foldl step round).graph (as.foldl step round).outcome := by
  induction as generalizing round with
  | nil => exact h
  | cons a as ih =>
    exact ih (hstep a List.mem_cons_self round h) fun b hb => hstep b (List.mem_cons_of_mem a hb)

/-- What a call and a function exchange, slot by slot. -/
theorem connectCall (h : Extends program G round.graph round.outcome) {f : FunctionId}
    {function : Function} (hf : program.function? f = some function) {c : CallId}
    (hc : G.Has (.callee c)) :
    let after := Round.connectCall program f function.paramCount round c
    Extends program G after.graph after.outcome := by
  refine foldl (h.connectDemanded (.result hf (h.has hc))) fun slot hslot round h => ?_
  exact h.connectDemanded (.argument hf (h.has hc) (Nat.lt_succ_iff.1 (List.mem_range.1 hslot)))

/-- All calls that a function reaches, in any order. -/
theorem connectReached (h : Extends program G round.graph round.outcome) {f : FunctionId}
    {function : Function} (hf : program.function? f = some function)
    {turns : List CallId → List CallId} (hturns : ∀ reached, (turns reached).Perm reached) :
    let after := Round.connectReached program turns f function.paramCount round
    Extends program G after.graph after.outcome := by
  rw [Round.connectReached]
  split
  · exact h
  · next source hfind =>
    dsimp only
    refine foldl h fun c hc round h' => h'.connectCall hf (h.has_callee ?_)
    -- the calls are read off callees that the graph has by now
    obtain ⟨id, -, hid⟩ := List.mem_filterMap.1 ((hturns _).mem_iff.1 hc)
    obtain ⟨v, hv, hcallee⟩ := Option.bind_eq_some_iff.1 hid
    obtain rfl := Vertex.calleeOf?_eq_some_iff.1 hcallee
    exact ⟨id, (find?_eq_some_iff _ _ _).2 hv⟩

/-- All that a round does for one function. -/
theorem connectScheduled (h : Extends program G round.graph round.outcome)
    (schedule : Schedule program) {f : FunctionId} (hf : f ∈ schedule.functions) :
    let after := Round.connectScheduled schedule round f
    Extends program G after.graph after.outcome := by
  obtain ⟨function, hf⟩ := (Round.mem_functionIds f).1 (schedule.functions_perm.mem_iff.1 hf)
  simp only [Round.connectScheduled, hf, Option.map_some, Option.getD_some]
  refine connectReached (foldl h fun slot hslot round h => ?_) hf (schedule.turns_perm f)
  exact h.markIfDemanded (.param hf (Nat.lt_succ_iff.1 (List.mem_range.1 hslot)))

end Extends

/-- A round in whatever order only adds, and counts what it adds. -/
theorem extends_runIn (schedule : Schedule program) (G : FlowGraph) :
    Extends program G (Round.runIn schedule G).graph (Round.runIn schedule G).outcome := by
  refine Extends.foldl (Extends.foldl (Extends.refl program G) fun c hc round h => ?_)
    fun f hf round h => h.connectScheduled schedule hf
  obtain ⟨site, hsite⟩ := (Round.mem_callIds c).1 (schedule.calls_perm.mem_iff.1 hc)
  exact h.markIfDemanded (.res hsite)

/-- **A round only adds**, and counts what it adds. -/
theorem extends_round (program : Program) (G : FlowGraph) :
    Extends program G (Round.run program G).graph (Round.run program G).outcome :=
  extends_runIn (.ascending program) G

/-- What a round leaves has the vertices that were there and the sources of edges. -/
theorem has_runIn (schedule : Schedule program) (G : FlowGraph) (v : Vertex) :
    (Round.runIn schedule G).graph.Has v ↔
      G.Has v ∨ ∃ w, (v, w) ∈ (Round.runIn schedule G).graph.edgeSet := by
  have h := extends_runIn schedule G
  constructor
  · exact fun hv => (h.newVertices v hv).imp_right fun ⟨w, hedge, _⟩ => ⟨w, hedge⟩
  · rintro (hold | ⟨w, hedge⟩)
    · exact h.has hold
    · exact (has_of_mem_edgeSet hedge).1

theorem has_round (program : Program) (G : FlowGraph) (v : Vertex) :
    (Round.run program G).graph.Has v ↔
      G.Has v ∨ ∃ w, (v, w) ∈ (Round.run program G).graph.edgeSet :=
  has_runIn (.ascending program) G v

theorem extends_rounds (program : Program) (n : ℕ) (G : FlowGraph) :
    Extends program G (rounds program n G).1 (rounds program n G).2 := by
  induction n generalizing G with
  | zero => exact Extends.refl program G
  | succ n ih => exact (extends_round program G).trans (ih _)

/-- One round more. -/
theorem rounds_succ (program : Program) (n : ℕ) (G : FlowGraph) :
    rounds program (n + 1) G =
      ((Round.run program (rounds program n G).1).graph,
        (rounds program n G).2 + (Round.run program (rounds program n G).1).outcome) := by
  induction n generalizing G with
  | zero =>
    rw [rounds, rounds, RoundOutcome.zero_add]
    rfl
  | succ n ih =>
    rw [rounds, ih]
    simp only [rounds, RoundOutcome.add_assoc]

end Propagation

end CallFlow
