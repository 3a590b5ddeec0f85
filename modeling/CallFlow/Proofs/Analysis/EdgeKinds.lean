import CallFlow.Proofs.Analysis.History

/-!
# Kinds of edges

Which vertices an edge may lead between depends on what has been done. Building leads nothing into
functions, parameters and built-in functions, and nothing out of callees, arguments and returned
values. Rounds then lead arguments into parameters and returned values into results, hence in all
histories functions stay without edges into them and callees without edges out of them.
-/

namespace CallFlow

namespace Vertex

/-- Nothing flows out of this vertex before rounds are run. -/
def IsSink : Vertex → Prop
  | .callee _ | .arg _ _ | .ret _ => True
  | .func _ | .native _ | .param _ _ | .res _ | .unknown | .var _ | .prop _ | .expr _ => False

/-- Nothing flows into this vertex before rounds are run. -/
def IsOrigin : Vertex → Prop
  | .func _ | .native _ | .param _ _ => True
  | .callee _ | .arg _ _ | .ret _ | .res _ | .unknown | .var _ | .prop _ | .expr _ => False

variable {v : Vertex}

theorem IsSource.not_isSink (h : v.IsSource) : ¬ v.IsSink := by
  intro hsink
  cases v <;> first | exact h | exact hsink

theorem IsSource.ne_native (h : v.IsSource) (name : String) : v ≠ .native name := by
  rintro rfl
  exact h

theorem IsTarget.not_isOrigin (h : v.IsTarget) : ¬ v.IsOrigin := by
  intro horigin
  cases v <;> first | exact h | exact horigin

theorem IsTarget.ne_res (h : v.IsTarget) (c : CallId) : v ≠ .res c := by
  rintro rfl
  exact h

end Vertex

namespace History

/-- The call is recorded to require a module. -/
def Requires (h : History) (c : CallId) : Prop :=
  ∃ record ∈ h.records, ∃ r ∈ record.requires, r.call = c

/-- An edge as building may add it. -/
structure Direct (h : History) (a b : Vertex) : Prop where
  source : ¬ a.IsSink
  target : ¬ b.IsOrigin
  native : ∀ name, a = .native name → ∃ property, b = .prop property
  result : ∀ c, b = .res c → h.Requires c

/-- An edge as any step may add it. -/
structure Admissible (a b : Vertex) : Prop where
  callee : ∀ c, a ≠ .callee c
  function : ∀ f, b ≠ .func f
  native : ∀ name, b ≠ .native name

variable {h : History} {a b : Vertex}

/-! ## What building adds -/

namespace Direct

/-- An edge of a walk. -/
theorem of_walk (ha : a.IsSource) (hb : b.IsTarget ∨ ∃ c slot, b = .arg c slot) :
    h.Direct a b where
  source := ha.not_isSink
  target := by
    -- a target of a walk, or a slot that a walk passes an argument to
    rcases hb with hb | ⟨c, slot, rfl⟩
    · exact hb.not_isOrigin
    · exact id
  native name heq := absurd heq (ha.ne_native name)
  result c heq := by
    rcases hb with hb | ⟨_, slot, rfl⟩
    · exact absurd heq (hb.ne_res c)
    · cases heq

theorem of_prop (ha : ¬ a.IsSink) (property : String) : h.Direct a (.prop property) :=
  ⟨ha, id, fun _ _ => ⟨property, rfl⟩, nofun⟩

/-- Exported values flow into the result of a call of `require`. -/
theorem of_requires (ha : a.IsSource) {c : CallId} (hc : h.Requires c) : h.Direct a (.res c) where
  source := ha.not_isSink
  target := id
  native name heq := absurd heq (ha.ne_native name)
  result := by
    rintro _ ⟨⟩
    exact hc

theorem admissible (hab : h.Direct a b) : Admissible a b where
  callee _ heq := hab.source (heq ▸ trivial)
  function _ heq := hab.target (heq ▸ trivial)
  native _ heq := hab.target (heq ▸ trivial)

end Direct

/-- Records stay. -/
theorem Requires.build {c : CallId} (hc : h.Requires c) (what : Build) :
    (h.build what).Requires c := by
  obtain ⟨record, hrecord, hrequired⟩ := hc
  refine ⟨record, ?_, hrequired⟩
  cases what with
  | seed | link _ =>
    rw [History.build, records_withGraph]
    exact hrecord
  | file path lines m => exact Array.mem_push_of_mem _ hrecord

theorem Direct.build (hab : h.Direct a b) (what : Build) : (h.build what).Direct a b :=
  { hab with result := fun c heq => (hab.result c heq).build what }

/-- Links lead from what modules export to what receives it, which is no slot of an argument. -/
theorem edges_link (hvalid : h.Valid) (numbers : List ℕ)
    (hab : (a, b) ∈ (h.build (.link numbers)).flow.graph.edgeSet) :
    (a, b) ∈ h.flow.graph.edgeSet ∨ a.IsSource ∧
      (b.IsTarget ∨ (∃ c, b = .res c ∧ h.Requires c) ∨ ∃ property, b = .prop property) := by
  obtain ⟨views, hviews⟩ := hvalid.exists_views numbers
  have hlinked := Linking.run_spec (hviews.imp fun _ _ hd => hd.2.1)
  refine ((hlinked.edges (a, b)).1 hab).imp_right ?_
  rintro ⟨hjoin, hne⟩
  -- a join leads from what one of the modules exports to what receives it in another
  obtain ⟨hends, importer, himporter, hreceives⟩ := ModuleView.ends_of_mem_joins hjoin
  obtain ⟨exporter, hexporter, x, hx, hsource⟩ := hends.resolve_left hne
  obtain ⟨_, -, -, -, hexports, -⟩ := exists_mem_of_forall₂ hviews hexporter
  have ha : a.IsSource := by
    rw [show a = x.value from hsource]
    exact hexports x hx
  obtain ⟨record, -, hrecord, hdenotes, -, himports⟩ := exists_mem_of_forall₂ hviews himporter
  refine ⟨ha, ?_⟩
  rcases hreceives with ⟨i, hi, rfl⟩ | ⟨r, hr, rfl⟩ | ⟨name, rfl⟩
  · exact Or.inl (himports i hi)
  · refine Or.inr (Or.inl ⟨r.call, rfl, record, hrecord, r, ?_, rfl⟩)
    rwa [← hdenotes.requires, Array.mem_toList_iff] at hr
  · exact Or.inr (Or.inr ⟨name, rfl⟩)

/-- **One build.** The edges that come in are direct. -/
theorem edges_build (hvalid : h.Valid) (what : Build)
    (hab : (a, b) ∈ (h.build what).flow.graph.edgeSet) :
    (a, b) ∈ h.flow.graph.edgeSet ∨ (h.build what).Direct a b := by
  cases what with
  | seed =>
    -- named by its equation: the list of built-in functions is not to be unfolded
    rw [History.build, graph_withGraph] at hab
    refine (((Builtin.seed_spec h.flow.graph).2.1 (a, b)).1 hab).imp_right ?_
    rintro ⟨name, -, heq⟩
    obtain ⟨rfl, rfl⟩ := Prod.mk.inj heq
    exact .of_prop id _
  | file path lines m =>
    have hgrows := FlowState.grows_addFile hvalid.closed path lines m
    exact (hgrows.edges hab).imp_right fun hkinds => .of_walk hkinds.1 hkinds.2
  | link numbers =>
    refine (edges_link hvalid numbers hab).imp_right ?_
    rintro ⟨ha, hb | ⟨c, rfl, hc⟩ | ⟨property, rfl⟩⟩
    · exact .of_walk ha (Or.inl hb)
    · exact .of_requires ha (hc.build _)
    · exact .of_prop ha.not_isSink property

/-! ## What rounds add -/

/-- What a round adds leads from an argument or a returned value into a parameter or a result. -/
theorem admissible_of_exchange {program : Program} {graph : FlowGraph}
    (hab : Exchange program graph a b) : Admissible a b where
  callee := by
    rintro c rfl
    cases hab
  function := by
    rintro f rfl
    cases hab
  native := by
    rintro name rfl
    cases hab

/-- **One step.** The edges that come in are admissible. -/
theorem edges_step (hvalid : h.Valid) (s : Step)
    (hab : (a, b) ∈ (h.step s).flow.graph.edgeSet) :
    (a, b) ∈ h.flow.graph.edgeSet ∨ Admissible a b := by
  cases s with
  | build what => exact (edges_build hvalid what hab).imp_right Direct.admissible
  | round =>
    have hextends := Propagation.extends_round h.flow.program h.flow.graph
    exact (hextends.newEdges a b hab).imp_right admissible_of_exchange

/-! ## All histories -/

theorem no_edges_start (a b : Vertex) : (a, b) ∉ ({} : History).flow.graph.edgeSet := by
  show (a, b) ∉ FlowGraph.empty.edgeSet
  simp

/-- While nothing but building is done, all edges are those of building. -/
theorem direct_after (whats : List Build) :
    let built := after (whats.map .build)
    ∀ a b, (a, b) ∈ built.flow.graph.edgeSet → built.Direct a b := by
  refine after_induction (motive := fun h => ∀ a b, (a, b) ∈ h.flow.graph.edgeSet → h.Direct a b)
    (fun a b hab => absurd hab (no_edges_start a b)) fun s hs h hvalid hdirect a b hab => ?_
  obtain ⟨what, -, rfl⟩ := List.mem_map.1 hs
  exact (edges_build hvalid what hab).elim (fun hold => (hdirect a b hold).build what) id

/-- In all histories functions stay without edges into them and callees without edges out of them.
-/
theorem admissible_after (steps : List Step) :
    ∀ a b, (a, b) ∈ (after steps).flow.graph.edgeSet → Admissible a b := by
  refine after_induction (motive := fun h => ∀ a b, (a, b) ∈ h.flow.graph.edgeSet → Admissible a b)
    (fun a b hab => absurd hab (no_edges_start a b)) fun s _ h hvalid hadmissible a b hab => ?_
  exact (edges_step hvalid s hab).elim (hadmissible a b) id

/-- **Only the intended kinds of edges exist.** After any building all edges are direct. Rounds that
follow add exchanges only. In whatever order all of these are done, functions, written or built in,
have no edges into them and callees none out of them. -/
theorem edges_after :
    (∀ (whats : List Build) (a b : Vertex),
      let built := after (whats.map .build)
      (a, b) ∈ built.flow.graph.edgeSet → built.Direct a b) ∧
    (∀ (whats : List Build) (n : ℕ) (a b : Vertex),
      let built := after (whats.map .build)
      (a, b) ∈ (after (whats.map .build ++ List.replicate n .round)).flow.graph.edgeSet →
        (a, b) ∈ built.flow.graph.edgeSet ∨ Exchange built.flow.program built.flow.graph a b) ∧
    ∀ (steps : List Step) (a b : Vertex),
      (a, b) ∈ (after steps).flow.graph.edgeSet → Admissible a b := by
  refine ⟨direct_after, fun whats n a b => ?_, admissible_after⟩
  rw [after_append, foldl_round]
  exact (Propagation.extends_rounds _ n _).newEdges a b

/-- The function that a file offers leads to the result of the call that requires it. A round lets
what the function returns lead to the result of the call of the function. -/
theorem edges_after_example :
    (.func ⟨0⟩, .res ⟨0⟩) ∈ (after (linked.map .build)).flow.graph.edgeSet ∧
    (after (linked.map .build)).Requires ⟨0⟩ ∧
    (.ret ⟨0⟩, .res ⟨2⟩) ∈
      (after (linked.map .build ++ List.replicate 1 .round)).flow.graph.edgeSet ∧
    Exchange (after (linked.map .build)).flow.program (after (linked.map .build)).flow.graph
      (.ret ⟨0⟩) (.res ⟨2⟩) ∧
    Admissible (.ret ⟨0⟩) (.res ⟨2⟩) := by
  have hrequired : (.func ⟨0⟩, .res ⟨0⟩) ∈ (after (linked.map .build)).flow.graph.edgeSet :=
    FlowGraph.mem_edgeSet.2 ⟨⟨0⟩, ⟨7⟩, by decide +kernel⟩
  have hreturned : (.ret ⟨0⟩, .res ⟨2⟩) ∈
      (after (linked.map .build ++ List.replicate 1 .round)).flow.graph.edgeSet :=
    FlowGraph.mem_edgeSet.2 ⟨⟨3⟩, ⟨14⟩, by decide +kernel⟩
  obtain ⟨hbuilt, hrounds, hall⟩ := edges_after
  have hdirect := hbuilt linked _ _ hrequired
  refine ⟨hrequired, hdirect.result ⟨0⟩ rfl, hreturned, ?_, hall _ _ _ hreturned⟩
  refine (hrounds linked 1 _ _ hreturned).resolve_left fun hold => ?_
  -- before the round nothing leads out of what is returned
  exact (hbuilt linked _ _ hold).source trivial

end History

end CallFlow
