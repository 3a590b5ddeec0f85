import CallFlow.Proofs.Propagation.Rules
import CallFlow.Proofs.Propagation.Schedule
import CallFlow.Proofs.Flow.Snapshot

/-!
# One round

A round marks and connects vertex by vertex while the graph grows under it. `Round.Since` is what
holds in between: the snapshot still describes the graph at the start, nothing is lost, and the
counters are not zero if something has changed. Each elementary step has one lemma that says which
flags and edges it adds, in terms of the graph at the start only; the lists that a round works
through come by induction, whatever their order. `Round.runIn_spec` is the sum, and `Round.run_spec`
the case of a round in ascending order.
-/

namespace CallFlow.Round

open FlowGraph (has_of_mem_edgeSet mem_edgeSet join_spec flagged_flag)

/-- What holds during a round that started from `G`. -/
structure Since (G : FlowGraph) (round : Round) : Prop where
  describes : round.snapshot.Describes G Vertex.isTracked
  keeps : ∀ v id, G.find? v = some id → round.graph.find? v = some id
  fresh : ∀ v, round.graph.Has v → G.Has v ∨ (∃ f, v = .ret f) ∨ ∃ c slot, v = .arg c slot
  grows : G.edgeSet ⊆ round.graph.edgeSet
  flags : ∀ v, G.Flagged v → round.graph.Flagged v
  quiet : round.outcome.edgesAdded = 0 →
    round.graph.edgeSet = G.edgeSet ∧ ∀ v, round.graph.find? v = G.find? v
  busy : round.outcome.edgesAdded ≠ 0 → ∃ e ∈ round.graph.edgeSet, e ∉ G.edgeSet
  idle : round.outcome = {} → round.graph = G
  flagging : round.outcome.newlyInteresting ≠ 0 → ∃ v, round.graph.Flagged v ∧ ¬ G.Flagged v

/-- An edge into this vertex is of interest to a round: it was flagged at the start or is flagged
by the round. -/
def Open (G : FlowGraph) (v : Vertex) : Prop :=
  G.Flagged v ∨ Wanted G.edgeSet v

/-- The flags set during the round are justified, those of the results of calls are complete. -/
structure Marked (program : Program) (G : FlowGraph) (round : Round) : Prop where
  isOpen : ∀ v, round.graph.Flagged v → Open G v
  results : ∀ c site, program.call? c = some site → Wanted G.edgeSet (.res c) →
    round.graph.Flagged (.res c)

variable {program : Program} {G : FlowGraph} {round : Round}

/-- A round starts with the graph and a new snapshot of it. -/
theorem since_start (G : FlowGraph) :
    Since G { graph := G, snapshot := G.reachability Vertex.isTracked } where
  describes := Reachability.describes_reachability G Vertex.isTracked
  keeps := fun _ _ h => h
  fresh := fun _ h => Or.inl h
  grows := Set.Subset.rfl
  flags := fun _ h => h
  quiet := fun _ => ⟨rfl, fun _ => rfl⟩
  busy := fun h => absurd rfl h
  idle := fun _ => rfl
  flagging := fun h => absurd rfl h

namespace Since

/-- A question leaves the snapshot as good as it was. -/
theorem query (hr : Since G round) (source : VertexId) :
    Since G { round with snapshot := (round.snapshot.query source).2 } :=
  { hr with describes := (hr.describes.query_graph source).1 }

/-- A round adds no vertices but results of functions and arguments of calls. -/
theorem find?_eq (hr : Since G round) {v : Vertex} (hret : ∀ f, v ≠ .ret f)
    (harg : ∀ c slot, v ≠ .arg c slot) : round.graph.find? v = G.find? v := by
  cases hG : G.find? v with
  | some id => exact hr.keeps v id hG
  | none =>
    cases hround : round.graph.find? v with
    | none => rfl
    | some id =>
      rcases hr.fresh v ⟨id, hround⟩ with ⟨id', h⟩ | ⟨f, h⟩ | ⟨c, slot, h⟩
      · rw [hG] at h
        cases h
      · exact absurd h (hret f)
      · exact absurd h (harg c slot)

theorem find?_markable (hr : Since G round) {v : Vertex} (hv : Markable program v) :
    round.graph.find? v = G.find? v := by
  cases hv with
  | res _ | param _ _ => exact hr.find?_eq (fun _ => nofun) fun _ _ => nofun

/-- An answer of the snapshot, read in the graph as it is by now, has the calls into whose callees
the vertex flowed at the start. -/
theorem mem_filterMap_query (hr : Since G round) {v : Vertex} {id : VertexId}
    (hv : G.find? v = some id) (c : CallId) :
    c ∈ (round.snapshot.query id).1.filterMap (calleeAt? round.graph) ↔
      Flows G.edgeSet v (.callee c) := by
  obtain ⟨-, -, hmem⟩ := hr.describes.query_graph id
  rw [List.mem_filterMap]
  constructor
  · rintro ⟨w, hw, hc⟩
    obtain ⟨x, hx, hxc⟩ := Option.bind_eq_some_iff.1 hc
    obtain rfl := Vertex.calleeOf?_eq_some_iff.1 hxc
    -- the number was given out before the round, hence to the same vertex
    have hlt := FlowGraph.Path.lt ((hmem w).1 hw) (FlowGraph.lt_of_find? hv)
    obtain ⟨y, hy⟩ := FlowGraph.exists_find?_of_lt hlt
    obtain rfl := FlowGraph.find?_inj (hr.keeps y w hy)
      ((round.graph.find?_eq_some_iff _ w).2 hx)
    exact (FlowGraph.path_iff_flows hv hy).1 ((hmem w).1 hw)
  · intro hflow
    obtain ⟨w, hw⟩ := FlowGraph.has_of_flows ⟨id, hv⟩ hflow
    refine ⟨w, (hmem w).2 ((FlowGraph.path_iff_flows hv hw).2 hflow), ?_⟩
    exact Option.bind_eq_some_iff.2 ⟨_, (round.graph.find?_eq_some_iff _ w).1 (hr.keeps _ w hw),
      Vertex.calleeOf?_eq_some_iff.2 rfl⟩

/-- What a vertex leads to is asked of the graph at the start. -/
theorem queryAny_iff (hr : Since G round) {v : Vertex} {id : VertexId}
    (hv : G.find? v = some id) :
    (round.snapshot.queryAny id fun w => (calleeAt? round.graph w).isSome).1 = true ↔
      Wanted G.edgeSet v := by
  rw [Reachability.queryAny, List.any_eq_true]
  constructor
  · rintro ⟨w, hw, hsome⟩
    obtain ⟨c, hc⟩ := Option.isSome_iff_exists.1 hsome
    exact ⟨c, (hr.mem_filterMap_query hv c).1 (List.mem_filterMap.2 ⟨w, hw, hc⟩)⟩
  · rintro ⟨c, hflow⟩
    obtain ⟨w, hw, hc⟩ := List.mem_filterMap.1 ((hr.mem_filterMap_query hv c).2 hflow)
    exact ⟨w, hw, Option.isSome_iff_exists.2 ⟨c, hc⟩⟩

/-! ## Elementary steps -/

/-- A flag is set. -/
theorem mark (hr : Since G round) {v : Vertex} {id : VertexId}
    (hfind : round.graph.find? v = some id) (hflag : ¬ round.graph.isInteresting id = true) :
    Since G { round with
      graph := round.graph.flag id
      outcome := { round.outcome with
        newlyInteresting := round.outcome.newlyInteresting + 1 } } := by
  have hflags := flagged_flag hfind
  exact
    { describes := hr.describes
      keeps := hr.keeps
      fresh := hr.fresh
      grows := hr.grows
      flags := fun w hw => (hflags w).2 (Or.inl (hr.flags w hw))
      quiet := hr.quiet
      busy := hr.busy
      idle := fun h => absurd (congrArg RoundOutcome.newlyInteresting h) (Nat.succ_ne_zero _)
      flagging := fun _ => by
        refine ⟨v, (hflags v).2 (Or.inr rfl), fun hold => hflag ?_⟩
        obtain ⟨id', hid', h⟩ := hr.flags v hold
        rw [hfind] at hid'
        rwa [Option.some.inj hid'] }

/-- **Marking.** The vertex is flagged from now on if it was wanted at the start. -/
theorem markIfDemanded (hr : Since G round) {v : Vertex} (hv : Markable program v) :
    Since G (round.markIfDemanded v) ∧
      (round.markIfDemanded v).graph.edgeSet = round.graph.edgeSet ∧
      ∀ w, (round.markIfDemanded v).graph.Flagged w ↔
        round.graph.Flagged w ∨ w = v ∧ Wanted G.edgeSet v := by
  have hfind := hr.find?_markable hv
  cases hG : G.find? v with
  -- what is not there is not wanted either
  | none =>
    have hsame : round.markIfDemanded v = round := by
      simp only [Round.markIfDemanded, hfind, hG]
    rw [hsame]
    refine ⟨hr, rfl, fun w => ⟨Or.inl, ?_⟩⟩
    rintro (h | ⟨-, hwanted⟩)
    · exact h
    · obtain ⟨id, hid⟩ := hwanted.has hv
      rw [hG] at hid
      cases hid
  | some id =>
    rw [hG] at hfind
    -- a flag that is set needs no question
    by_cases hflag : round.graph.isInteresting id = true
    · have hsame : round.markIfDemanded v = round := by
        simp only [Round.markIfDemanded, hfind, hflag, if_true]
      rw [hsame]
      refine ⟨hr, rfl, fun w => ⟨Or.inl, ?_⟩⟩
      rintro (h | ⟨rfl, -⟩)
      · exact h
      · exact ⟨id, hfind, hflag⟩
    · have hasked := hr.query id
      have hiff := hr.queryAny_iff hG
      by_cases hwanted : Wanted G.edgeSet v
      · have hmarked : round.markIfDemanded v =
            { graph := round.graph.flag id
              snapshot := (round.snapshot.query id).2
              outcome := { round.outcome with
                newlyInteresting := round.outcome.newlyInteresting + 1 } } := by
          simp only [Round.markIfDemanded, hfind, hflag, hiff.2 hwanted, if_true]
          rfl
        rw [hmarked]
        refine ⟨hasked.mark hfind hflag, rfl, fun w => ?_⟩
        exact (flagged_flag hfind w).trans (or_congr_right (by simp [hwanted]))
      · have hsame : round.markIfDemanded v =
            { round with snapshot := (round.snapshot.query id).2 } := by
          simp only [Round.markIfDemanded, hfind, hflag, Bool.eq_false_iff.2 (mt hiff.1 hwanted)]
          rfl
        rw [hsame]
        exact ⟨hasked, rfl, fun w => by simp [hwanted]⟩

/-- An edge is added. -/
theorem join (hr : Since G round) {f : FunctionId} {c : CallId} {a b : Vertex}
    (hab : Transfer program f c a b) {t : VertexId} (hb : round.graph.find? b = some t)
    (hmem : (a, b) ∉ round.graph.edgeSet) :
    Since G { round with
      graph := ((round.graph.intern a).2.addEdge (round.graph.intern a).1 t).2
      outcome := { round.outcome with edgesAdded := round.outcome.edgesAdded + 1 } } := by
  obtain ⟨-, -, hedges, hfind, hflags⟩ := join_spec hb hab.ne
  refine
    { describes := hr.describes
      keeps := ?keeps
      fresh := ?fresh
      grows := hedges ▸ hr.grows.trans (Set.subset_insert _ _)
      flags := fun v hv => (hflags v).2 (hr.flags v hv)
      quiet := fun h => absurd h (Nat.succ_ne_zero _)
      busy := fun _ => ⟨(a, b), hedges ▸ Set.mem_insert _ _, fun h => hmem (hr.grows h)⟩
      idle := fun h => absurd (congrArg RoundOutcome.edgesAdded h) (Nat.succ_ne_zero _)
      flagging := ?flagging }
  case keeps =>
    intro v id hv
    rw [hfind v]
    split
    · next h => rw [FlowGraph.intern_of_find? (h ▸ hr.keeps v id hv)]
    · exact hr.keeps v id hv
  case fresh =>
    intro v ⟨id, hv⟩
    rw [hfind v] at hv
    split at hv
    · next h =>
      -- only the source of the edge may be new, and it is a result or an argument
      rw [h]
      cases hab with
      | result _ _ => exact Or.inr (Or.inl ⟨f, rfl⟩)
      | argument _ _ _ => exact Or.inr (Or.inr ⟨c, _, rfl⟩)
    · exact hr.fresh v ⟨id, hv⟩
  case flagging =>
    intro h
    obtain ⟨v, hv, hold⟩ := hr.flagging h
    exact ⟨v, (hflags v).2 hv, hold⟩

/-- **Connecting.** The edge is there from now on if its target is flagged. -/
theorem connectDemanded (hr : Since G round) {f : FunctionId} {c : CallId} {a b : Vertex}
    (hab : Transfer program f c a b) :
    Since G (round.connectDemanded a b) ∧
      (∀ e, e ∈ (round.connectDemanded a b).graph.edgeSet ↔
        e ∈ round.graph.edgeSet ∨ e = (a, b) ∧ round.graph.Flagged b) ∧
      ∀ v, (round.connectDemanded a b).graph.Flagged v ↔ round.graph.Flagged v := by
  -- only what is flagged takes part
  by_cases hflagged : round.graph.Flagged b
  · obtain ⟨t, hb, ht⟩ := hflagged
    let joined := (round.graph.intern a).2.addEdge (round.graph.intern a).1 t
    have hjoined : round.connectDemanded a b =
        { round with
          graph := joined.2
          outcome := { round.outcome with
            edgesAdded := round.outcome.edgesAdded + if joined.1 then 1 else 0 } } := by
      simp only [Round.connectDemanded, hb, ht, if_true]
      rfl
    obtain ⟨hnew, hsame, hedges, -, hflags⟩ := join_spec hb hab.ne
    refine ⟨?_, fun e => ?_, by rw [hjoined]; exact hflags⟩
    -- an edge that is there is not added again
    · by_cases hmem : (a, b) ∈ round.graph.edgeSet
      · have hold : joined.1 = false := Bool.eq_false_iff.2 fun h => hnew.1 h hmem
        have hround : round.connectDemanded a b = round := by
          rw [hjoined, hold, show joined.2 = round.graph from hsame hold]
          rfl
        rw [hround]
        exact hr
      · rw [hjoined, show joined.1 = true from hnew.2 hmem]
        exact hr.join hab hb hmem
    · rw [hjoined, hedges, Set.mem_insert_iff, or_comm]
      exact or_congr_right ⟨fun h => ⟨h, t, hb, ht⟩, And.left⟩
  · have hround : round.connectDemanded a b = round := by
      rw [Round.connectDemanded]
      split
      · rfl
      · next t hb => rw [if_neg fun ht => hflagged ⟨t, hb, ht⟩]
    rw [hround]
    exact ⟨hr, fun e => by simp [hflagged], fun _ => Iff.rfl⟩

/-! ## Lists of steps -/

/-- Vertices are marked one by one, and no mark changes what is wanted. -/
theorem foldl_markIfDemanded (hr : Since G round) (vs : List Vertex)
    (hvs : ∀ v ∈ vs, Markable program v) :
    Since G (vs.foldl Round.markIfDemanded round) ∧
      (vs.foldl Round.markIfDemanded round).graph.edgeSet = round.graph.edgeSet ∧
      ∀ w, (vs.foldl Round.markIfDemanded round).graph.Flagged w ↔
        round.graph.Flagged w ∨ w ∈ vs ∧ Wanted G.edgeSet w := by
  induction vs generalizing round with
  | nil => exact ⟨hr, rfl, fun w => by simp⟩
  | cons v vs ih =>
    obtain ⟨hr', hedges, hflags⟩ := hr.markIfDemanded (hvs v List.mem_cons_self)
    obtain ⟨hr'', hedges', hflags'⟩ := ih hr' fun w hw => hvs w (List.mem_cons_of_mem v hw)
    refine ⟨hr'', hedges'.trans hedges, fun w => ?_⟩
    rw [List.foldl_cons, hflags' w, hflags w, List.mem_cons, or_and_right, or_assoc]
    exact or_congr_right (or_congr_left (and_congr_right fun h => by rw [h]))

/-- Edges are added one by one, and no edge sets a flag. -/
theorem foldl_connectDemanded (hr : Since G round) (edges : List (Vertex × Vertex))
    (hedges : ∀ e ∈ edges, ∃ f c, Transfer program f c e.1 e.2) :
    let later := edges.foldl (fun round e => round.connectDemanded e.1 e.2) round
    Since G later ∧
      (∀ e, e ∈ later.graph.edgeSet ↔
        e ∈ round.graph.edgeSet ∨ e ∈ edges ∧ round.graph.Flagged e.2) ∧
      ∀ v, later.graph.Flagged v ↔ round.graph.Flagged v := by
  induction edges generalizing round with
  | nil => exact ⟨hr, fun e => by simp, fun _ => Iff.rfl⟩
  | cons e edges ih =>
    obtain ⟨f, c, htransfer⟩ := hedges e List.mem_cons_self
    obtain ⟨hr', hedge, hflags⟩ := hr.connectDemanded htransfer
    obtain ⟨hr'', hedge', hflags'⟩ := ih hr' fun e' he' => hedges e' (List.mem_cons_of_mem e he')
    refine ⟨hr'', fun e' => ?_, fun v => (hflags' v).trans (hflags v)⟩
    rw [List.foldl_cons, hedge' e', hedge e', hflags e'.2, List.mem_cons, or_and_right, or_assoc]
    exact or_congr_right (or_congr_left (and_congr_right fun h => by rw [h]))

/-- Connecting a function with a call is trying its transfers in turn. -/
theorem connectCall_eq {f : FunctionId} {function : Function} {c : CallId} {site : CallSite}
    (hf : program.function? f = some function) (hc : program.call? c = some site)
    (round : Round) :
    connectCall program f function.paramCount round c =
      (transfers program f c).foldl (fun round e => round.connectDemanded e.1 e.2) round := by
  simp only [connectCall, transfers, hf, hc, List.foldl_cons, List.foldl_map, Option.map_some,
    Option.getD_some]

/-- A function and its calls exchange what they have slots for, in the order of the calls. -/
theorem foldl_connectCall (hr : Since G round) {f : FunctionId} {function : Function}
    (hf : program.function? f = some function) (calls : List CallId)
    (hcalls : ∀ c ∈ calls, ∃ site, program.call? c = some site) :
    let later := calls.foldl (connectCall program f function.paramCount) round
    Since G later ∧
      (∀ a b, (a, b) ∈ later.graph.edgeSet ↔ (a, b) ∈ round.graph.edgeSet ∨
        ∃ c ∈ calls, Transfer program f c a b ∧ round.graph.Flagged b) ∧
      ∀ v, later.graph.Flagged v ↔ round.graph.Flagged v := by
  -- the edges of the calls, one list behind the other
  have hfold : calls.foldl (connectCall program f function.paramCount) round =
      (calls.flatMap (transfers program f)).foldl
        (fun round e => round.connectDemanded e.1 e.2) round := by
    rw [List.foldl_flatMap]
    refine List.foldl_ext _ _ _ fun round c hc => ?_
    obtain ⟨site, hsite⟩ := hcalls c hc
    exact connectCall_eq hf hsite round
  intro later
  obtain ⟨hr', hedges, hflags⟩ := hr.foldl_connectDemanded (calls.flatMap (transfers program f))
    fun e he => by
      obtain ⟨c, -, hc⟩ := List.mem_flatMap.1 he
      exact ⟨f, c, mem_transfers.1 hc⟩
  rw [← hfold] at hr' hedges hflags
  refine ⟨hr', fun a b => (hedges (a, b)).trans (or_congr_right ?_), hflags⟩
  simp only [List.mem_flatMap, mem_transfers]
  exact ⟨fun ⟨⟨c, hc, h⟩, hflag⟩ => ⟨c, hc, h, hflag⟩, fun ⟨c, hc, h, hflag⟩ => ⟨⟨c, hc, h⟩, hflag⟩⟩

/-! ## The turn of a function -/

/-- The parameters that were wanted at the start are flagged. -/
theorem markParameters (hr : Since G round) {f : FunctionId} {function : Function}
    (hf : program.function? f = some function) :
    let later := round.markParameters f function.paramCount
    Since G later ∧ later.graph.edgeSet = round.graph.edgeSet ∧
      ∀ v, later.graph.Flagged v ↔ round.graph.Flagged v ∨
        (∃ slot ≤ function.paramCount, v = .param f slot) ∧ Wanted G.edgeSet v := by
  have hmem : ∀ v, v ∈ (List.range (function.paramCount + 1)).map (Vertex.param f) ↔
      ∃ slot ≤ function.paramCount, v = .param f slot := fun v => by
    simp only [List.mem_map, List.mem_range, Nat.lt_succ_iff, eq_comm (a := v)]
  have hmarkable : ∀ v ∈ (List.range (function.paramCount + 1)).map (Vertex.param f),
      Markable program v := fun v hv => by
    obtain ⟨slot, hslot, rfl⟩ := (hmem v).1 hv
    exact .param hf hslot
  have hspec := hr.foldl_markIfDemanded _ hmarkable
  rw [List.foldl_map] at hspec
  simp only [hmem] at hspec
  exact hspec

/-- The transfers with the calls that the function reached at the start are there if their
targets are flagged. -/
theorem connectReached (hr : Since G round) (hreg : CalleesRegistered program G) {f : FunctionId}
    {function : Function} (hf : program.function? f = some function)
    {turns : List CallId → List CallId} (hturns : ∀ reached, (turns reached).Perm reached) :
    let later := round.connectReached program turns f function.paramCount
    Since G later ∧
      (∀ a b, (a, b) ∈ later.graph.edgeSet ↔ (a, b) ∈ round.graph.edgeSet ∨
        ∃ c, Flows G.edgeSet (.func f) (.callee c) ∧ Transfer program f c a b ∧
          round.graph.Flagged b) ∧
      ∀ v, later.graph.Flagged v ↔ round.graph.Flagged v := by
  intro later
  have hold := hr.find?_eq (v := .func f) (fun _ => nofun) fun _ _ => nofun
  cases hfind : round.graph.find? (.func f) with
  | none =>
    have hsame : later = round := by
      simp only [later, Round.connectReached, hfind]
    rw [hsame]
    refine ⟨hr, fun a b => ⟨Or.inl, fun h => h.elim id ?_⟩, fun _ => Iff.rfl⟩
    -- a function without a vertex reaches nothing
    rintro ⟨c, hflow, -⟩
    obtain ⟨id, hid⟩ := FlowGraph.has_of_flows_ne hflow nofun
    rw [← hold, hfind] at hid
    cases hid
  | some source =>
    rw [hfind] at hold
    let calls := turns ((round.snapshot.query source).1.filterMap (calleeAt? round.graph))
    -- the snapshot says which calls are reached, in some order
    have hcalls : ∀ c, c ∈ calls ↔ Flows G.edgeSet (.func f) (.callee c) := fun c =>
      (hturns _).mem_iff.trans (hr.mem_filterMap_query hold.symm c)
    have hlater : later = calls.foldl (connectCall program f function.paramCount)
        { round with snapshot := (round.snapshot.query source).2 } := by
      simp only [later, Round.connectReached, hfind]
      rfl
    have hspec := (hr.query source).foldl_connectCall hf calls fun c hc =>
      hreg c (FlowGraph.has_of_flows ⟨source, hold.symm⟩ ((hcalls c).1 hc))
    simp only [hcalls] at hspec
    rw [hlater]
    exact hspec

/-- **The turn of a function.** Its parameters are flagged if they were wanted at the start, and
its transfers with the calls that it reached then are there if they are of interest. -/
theorem connectScheduled (hr : Since G round) (hmarked : Marked program G round)
    (hreg : CalleesRegistered program G) (schedule : Schedule program) {f : FunctionId}
    {function : Function} (hf : program.function? f = some function) :
    let later := round.connectScheduled schedule f
    Since G later ∧ Marked program G later ∧
      (∀ v, later.graph.Flagged v ↔ round.graph.Flagged v ∨
        (∃ slot ≤ function.paramCount, v = .param f slot) ∧ Wanted G.edgeSet v) ∧
      ∀ a b, (a, b) ∈ later.graph.edgeSet ↔ (a, b) ∈ round.graph.edgeSet ∨
        ∃ c, Flows G.edgeSet (.func f) (.callee c) ∧ Transfer program f c a b ∧ Open G b := by
  intro later
  let marked := round.markParameters f function.paramCount
  obtain ⟨hr₁, hedges₁, hflags₁⟩ := hr.markParameters hf
  obtain ⟨hr₂, hedges₂, hflags₂⟩ := hr₁.connectReached hreg hf (schedule.turns_perm f)
  have hlater : later = marked.connectReached program (schedule.turns f) f function.paramCount := by
    simp only [later, Round.connectScheduled, hf, Option.map_some, Option.getD_some, marked]
  have hisOpen : ∀ v, marked.graph.Flagged v → Open G v := fun v hv =>
    ((hflags₁ v).1 hv).elim (hmarked.isOpen v) fun h => Or.inr h.2
  have hresults : ∀ c site, program.call? c = some site → Wanted G.edgeSet (.res c) →
      marked.graph.Flagged (.res c) := fun c site hc hwanted =>
    (hflags₁ _).2 (Or.inl (hmarked.results c site hc hwanted))
  -- what is of interest to a transfer of this function is flagged by now
  have hopen : ∀ c a b, Transfer program f c a b → (marked.graph.Flagged b ↔ Open G b) := by
    intro c a b htransfer
    refine ⟨hisOpen b, fun h => ?_⟩
    rcases h with hold | hwanted
    · exact hr₁.flags b hold
    · cases htransfer with
      | result _ hc => exact hresults c _ hc hwanted
      | @argument function' site slot hf' hc hslot =>
        obtain rfl := Option.some.inj (hf.symm.trans hf')
        exact (hflags₁ _).2 (Or.inr ⟨⟨slot, by omega, rfl⟩, hwanted⟩)
  rw [hlater]
  refine ⟨hr₂, ⟨fun v hv => hisOpen v ((hflags₂ v).1 hv), fun c site hc hwanted =>
    (hflags₂ _).2 (hresults c site hc hwanted)⟩, fun v => (hflags₂ v).trans (hflags₁ v),
    fun a b => ?_⟩
  rw [hedges₂ a b, hedges₁]
  refine or_congr_right (exists_congr fun c => and_congr_right fun _ => ?_)
  exact and_congr_right fun htransfer => hopen c a b htransfer

/-- The turns of several functions, one after the other. -/
theorem foldl_connectScheduled (hr : Since G round) (hmarked : Marked program G round)
    (hreg : CalleesRegistered program G) (schedule : Schedule program) (fs : List FunctionId)
    (hfs : ∀ f ∈ fs, ∃ function, program.function? f = some function) :
    let later := fs.foldl (Round.connectScheduled schedule) round
    Since G later ∧
      (∀ v, later.graph.Flagged v ↔ round.graph.Flagged v ∨
        (∃ f ∈ fs, ∃ function slot, program.function? f = some function ∧
          slot ≤ function.paramCount ∧ v = .param f slot) ∧ Wanted G.edgeSet v) ∧
      ∀ a b, (a, b) ∈ later.graph.edgeSet ↔ (a, b) ∈ round.graph.edgeSet ∨
        ∃ f ∈ fs, ∃ c, Flows G.edgeSet (.func f) (.callee c) ∧ Transfer program f c a b ∧
          Open G b := by
  induction fs generalizing round with
  | nil => exact ⟨hr, fun v => by simp, fun a b => by simp⟩
  | cons f fs ih =>
    obtain ⟨function, hf⟩ := hfs f List.mem_cons_self
    obtain ⟨hr₁, hmarked₁, hflags₁, hedges₁⟩ := hr.connectScheduled hmarked hreg schedule hf
    obtain ⟨hr₂, hflags₂, hedges₂⟩ := ih hr₁ hmarked₁ fun g hg => hfs g (List.mem_cons_of_mem f hg)
    refine ⟨hr₂, fun v => ?_, fun a b => ?_⟩
    · rw [List.foldl_cons, hflags₂ v, hflags₁ v, or_assoc, ← or_and_right, List.exists_mem_cons_iff]
      refine or_congr_right (and_congr_left fun _ => or_congr_left ?_)
      constructor
      · rintro ⟨slot, hslot, rfl⟩
        exact ⟨function, slot, hf, hslot, rfl⟩
      · rintro ⟨function', slot, hf', hslot, rfl⟩
        -- a number is that of one function
        obtain rfl := Option.some.inj (hf.symm.trans hf')
        exact ⟨slot, hslot, rfl⟩
    · rw [List.foldl_cons, hedges₂ a b, hedges₁ a b, or_assoc, List.exists_mem_cons_iff]

end Since

/-! ## The whole round -/

/-- The calls that are enumerated are those of the program. -/
theorem mem_callIds (c : CallId) :
    c ∈ program.callIds ↔ ∃ site, program.call? c = some site := by
  simp only [Program.callIds, Program.call?, List.mem_map, List.mem_range,
    Array.getElem?_eq_some_iff]
  constructor
  · rintro ⟨i, hi, rfl⟩
    exact ⟨_, hi, rfl⟩
  · rintro ⟨_, hi, -⟩
    exact ⟨c.index, hi, rfl⟩

theorem nodup_callIds (program : Program) : program.callIds.Nodup :=
  List.nodup_range.map fun _ _ h => congrArg CallId.index h

/-- The functions that are enumerated are those of the program. -/
theorem mem_functionIds (f : FunctionId) :
    f ∈ program.functionIds ↔ ∃ function, program.function? f = some function := by
  simp only [Program.functionIds, Program.function?, List.mem_map, List.mem_range,
    Array.getElem?_eq_some_iff]
  constructor
  · rintro ⟨i, hi, rfl⟩
    exact ⟨_, hi, rfl⟩
  · rintro ⟨_, hi, -⟩
    exact ⟨f.index, hi, rfl⟩

/-- The results of calls that were wanted at the start are flagged first. -/
theorem markScheduled_spec (schedule : Schedule program) (G : FlowGraph) :
    let later := markScheduled schedule { graph := G, snapshot := G.reachability Vertex.isTracked }
    Since G later ∧ later.graph.edgeSet = G.edgeSet ∧
      ∀ v, later.graph.Flagged v ↔ G.Flagged v ∨
        (∃ c site, program.call? c = some site ∧ v = .res c) ∧ Wanted G.edgeSet v := by
  have hmem : ∀ v, v ∈ schedule.calls.map Vertex.res ↔
      ∃ c site, program.call? c = some site ∧ v = .res c := fun v => by
    simp only [List.mem_map, schedule.calls_perm.mem_iff, mem_callIds, eq_comm (a := v)]
    exact exists_congr fun c => exists_and_right.symm
  have hmarkable : ∀ v ∈ schedule.calls.map Vertex.res, Markable program v := fun v hv => by
    obtain ⟨c, site, hc, rfl⟩ := (hmem v).1 hv
    exact .res hc
  have hspec := (since_start G).foldl_markIfDemanded _ hmarkable
  rw [List.foldl_map] at hspec
  simp only [hmem] at hspec
  exact hspec

/-- **A round in whatever order.** The flags that it sets and the edges that it adds are told by
the graph at its start: it flags what may be flagged and was wanted, and adds the transfers between
a function and the calls that it reached whose targets were flagged or wanted. -/
theorem runIn_spec (hreg : CalleesRegistered program G) (schedule : Schedule program) :
    Since G (runIn schedule G) ∧
      (∀ v, (runIn schedule G).graph.Flagged v ↔
        G.Flagged v ∨ Markable program v ∧ Wanted G.edgeSet v) ∧
      ∀ a b, (a, b) ∈ (runIn schedule G).graph.edgeSet ↔ (a, b) ∈ G.edgeSet ∨
        ∃ f c, Flows G.edgeSet (.func f) (.callee c) ∧ Transfer program f c a b ∧ Open G b := by
  obtain ⟨hr₁, hedges₁, hflags₁⟩ := markScheduled_spec schedule G
  -- after the first part of the round exactly the wanted results are flagged
  have hmarked : Marked program G
      (markScheduled schedule { graph := G, snapshot := G.reachability Vertex.isTracked }) :=
    { isOpen := fun v hv => ((hflags₁ v).1 hv).imp_right And.right
      results := fun c site hc hwanted => (hflags₁ _).2 (Or.inr ⟨⟨c, site, hc, rfl⟩, hwanted⟩) }
  -- the turns of the functions are a reordering, so every function has its turn
  have hfunctions : ∀ f, f ∈ schedule.functions ↔
      ∃ function, program.function? f = some function := fun f =>
    schedule.functions_perm.mem_iff.trans (mem_functionIds f)
  obtain ⟨hr₂, hflags₂, hedges₂⟩ := hr₁.foldl_connectScheduled hmarked hreg schedule
    schedule.functions fun f hf => (hfunctions f).1 hf
  refine ⟨hr₂, fun v => ?_, fun a b => ?_⟩
  · rw [runIn, hflags₂ v, hflags₁ v, or_assoc, ← or_and_right]
    refine or_congr_right (and_congr_left fun _ => ?_)
    constructor
    · rintro (⟨c, site, hc, rfl⟩ | ⟨f, -, function, slot, hf, hslot, rfl⟩)
      · exact .res hc
      · exact .param hf hslot
    · intro h
      cases h with
      | res hc => exact Or.inl ⟨_, _, hc, rfl⟩
      | param hf hslot =>
        exact Or.inr ⟨_, (hfunctions _).2 ⟨_, hf⟩, _, _, hf, hslot, rfl⟩
  · rw [runIn, hedges₂ a b, hedges₁]
    refine or_congr_right (exists_congr fun f => ?_)
    constructor
    · rintro ⟨-, h⟩
      exact h
    · rintro ⟨c, hflow, htransfer, hopen⟩
      refine ⟨?_, c, hflow, htransfer, hopen⟩
      cases htransfer with
      | result hf _ | argument hf _ _ => exact (hfunctions f).2 ⟨_, hf⟩

/-- **A round.** -/
theorem run_spec (hreg : CalleesRegistered program G) :
    Since G (run program G) ∧
      (∀ v, (run program G).graph.Flagged v ↔
        G.Flagged v ∨ Markable program v ∧ Wanted G.edgeSet v) ∧
      ∀ a b, (a, b) ∈ (run program G).graph.edgeSet ↔ (a, b) ∈ G.edgeSet ∨
        ∃ f c, Flows G.edgeSet (.func f) (.callee c) ∧ Transfer program f c a b ∧ Open G b :=
  runIn_spec hreg (.ascending program)

end CallFlow.Round
