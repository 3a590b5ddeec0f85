import CallFlow.Flow.Builtin
import CallFlow.Proofs.Flow.Counting
import CallFlow.Proofs.Propagation.Rules
import CallFlow.Proofs.Renaming.Basic

/-!
# Programs and graphs under a renaming

Two programs are the same up to a renaming, and so are two flow graphs, except that one may have
built-in functions of which the other knows nothing. Nothing flows into a built-in function, so
what flows between all other vertices is the same.
-/

namespace CallFlow

/-! ## Tables -/

/-- The one table has the entries of the other, changed, under new numbers. -/
structure Renumbered {α : Type} (new : ℕ ↪ ℕ) (f : α → α) (as as' : Array α) : Prop where
  getElem? : ∀ i, as'[new i]? = as[i]?.map f
  size : as'.size = as.size

namespace Renumbered

variable {α : Type} {new : ℕ ↪ ℕ} {f : α → α} {as as' : Array α}

theorem maps (h : Renumbered new f as as') : ∀ i < as.size, new i < as.size := by
  intro i hi
  have hsome : as'[new i]? = some (f as[i]) := by
    rw [h.getElem?, Array.getElem?_eq_getElem hi, Option.map_some]
  exact h.size ▸ (Array.getElem?_eq_some_iff.1 hsome).1

/-- Every entry of the one table comes from one of the other. -/
theorem exists_entry (h : Renumbered new f as as') {j : ℕ} {b : α} (hb : as'[j]? = some b) :
    ∃ i a, new i = j ∧ as[i]? = some a ∧ f a = b := by
  have hlt : j < as.size := h.size ▸ (Array.getElem?_eq_some_iff.1 hb).1
  obtain ⟨i, -, rfl⟩ := Renaming.exists_lt_of_maps new h.maps hlt
  obtain ⟨a, ha, hab⟩ := Option.map_eq_some_iff.1 ((h.getElem? i).symm.trans hb)
  exact ⟨i, a, rfl, ha, hab⟩

theorem range_perm (h : Renumbered new f as as') :
    (List.range as'.size).Perm ((List.range as.size).map new) := by
  rw [h.size]
  exact Renaming.range_perm new h.maps

end Renumbered

/-! ## Programs -/

/-- The one program has what the other has, under new numbers. -/
structure Program.Renamed (ρ : Renaming) (p p' : Program) : Prop where
  file? : ∀ i, p'.file? (ρ.fileId i) = p.file? i
  function? : ∀ f, p'.function? (ρ.functionId f) = (p.function? f).map ρ.function
  call? : ∀ c, p'.call? (ρ.callId c) = (p.call? c).map ρ.site
  files : p'.files.size = p.files.size
  functions : p'.functions.size = p.functions.size
  calls : p'.calls.size = p.calls.size

namespace Program.Renamed

variable {ρ : Renaming} {p p' : Program}

theorem renumbered_functions (h : Renamed ρ p p') :
    Renumbered (ρ.number .function) ρ.function p.functions p'.functions :=
  ⟨fun i => h.function? ⟨i⟩, h.functions⟩

theorem renumbered_calls (h : Renamed ρ p p') :
    Renumbered (ρ.number .call) ρ.site p.calls p'.calls :=
  ⟨fun i => h.call? ⟨i⟩, h.calls⟩

/-- Every function of the one program comes from one of the other. -/
theorem exists_function (h : Renamed ρ p p') {f' : FunctionId} {x : Function}
    (hf : p'.function? f' = some x) :
    ∃ f y, ρ.functionId f = f' ∧ p.function? f = some y ∧ ρ.function y = x := by
  obtain ⟨i, y, hi, hy⟩ := h.renumbered_functions.exists_entry hf
  exact ⟨⟨i⟩, y, congrArg FunctionId.mk hi, hy⟩

/-- Every call of the one program comes from one of the other. -/
theorem exists_call (h : Renamed ρ p p') {c' : CallId} {x : CallSite}
    (hc : p'.call? c' = some x) :
    ∃ c y, ρ.callId c = c' ∧ p.call? c = some y ∧ ρ.site y = x := by
  obtain ⟨i, y, hi, hy⟩ := h.renumbered_calls.exists_entry hc
  exact ⟨⟨i⟩, y, congrArg CallId.mk hi, hy⟩

theorem functionIds_perm (h : Renamed ρ p p') :
    p'.functionIds.Perm (p.functionIds.map ρ.functionId) := by
  refine (h.renumbered_functions.range_perm.map FunctionId.mk).trans (.of_eq ?_)
  rw [Program.functionIds, List.map_map, List.map_map]
  rfl

theorem callIds_perm (h : Renamed ρ p p') : p'.callIds.Perm (p.callIds.map ρ.callId) := by
  refine (h.renumbered_calls.range_perm.map CallId.mk).trans (.of_eq ?_)
  rw [Program.callIds, List.map_map, List.map_map]
  rfl

/-- What may be flagged is what may be flagged, renamed. -/
theorem markable_iff (h : Renamed ρ p p') {v' : Vertex} :
    Markable p' v' ↔ ∃ v, Markable p v ∧ ρ.vertex v = v' := by
  constructor
  · intro hv
    cases hv with
    | res hc =>
      obtain ⟨c, y, rfl, hy, -⟩ := h.exists_call hc
      exact ⟨.res c, .res hy, rfl⟩
    | param hf hslot =>
      obtain ⟨f, y, rfl, hy, rfl⟩ := h.exists_function hf
      exact ⟨.param f _, .param hy hslot, rfl⟩
  · rintro ⟨v, hv, rfl⟩
    cases hv with
    | res hc => exact .res ((h.call? _).trans (congrArg _ hc))
    | param hf hslot => exact .param ((h.function? _).trans (congrArg _ hf)) hslot

/-- What may be passed is what may be passed, renamed. -/
theorem transfer_iff (h : Renamed ρ p p') {f' : FunctionId} {c' : CallId} {a' b' : Vertex} :
    Transfer p' f' c' a' b' ↔ ∃ f c a b, Transfer p f c a b ∧ ρ.functionId f = f' ∧
      ρ.callId c = c' ∧ ρ.vertex a = a' ∧ ρ.vertex b = b' := by
  constructor
  -- both entries come from entries with as many slots
  · intro ht
    cases ht with
    | result hf hc =>
      obtain ⟨f, x, rfl, hx, -⟩ := h.exists_function hf
      obtain ⟨c, y, rfl, hy, -⟩ := h.exists_call hc
      exact ⟨f, c, _, _, .result hx hy, rfl, rfl, rfl, rfl⟩
    | argument hf hc hslot =>
      obtain ⟨f, x, rfl, hx, rfl⟩ := h.exists_function hf
      obtain ⟨c, y, rfl, hy, rfl⟩ := h.exists_call hc
      exact ⟨f, c, _, _, .argument hx hy hslot, rfl, rfl, rfl, rfl⟩
  · rintro ⟨f, c, a, b, ht, rfl, rfl, rfl, rfl⟩
    cases ht with
    | result hf hc =>
      exact .result ((h.function? _).trans (congrArg _ hf)) ((h.call? _).trans (congrArg _ hc))
    | argument hf hc hslot =>
      exact .argument ((h.function? _).trans (congrArg _ hf))
        ((h.call? _).trans (congrArg _ hc)) hslot

end Program.Renamed

/-! ## Graphs -/

/-- The edge of a built-in function. -/
def Builtin.link (name : String) : Vertex × Vertex := (.native name, .prop (Builtin.property name))

namespace FlowGraph

/-- The one graph has what the other has, under new numbers, and besides it the built-in functions
in `extra`. -/
structure Mirrors (extra : Set String) (ρ : Renaming) (G G' : FlowGraph) : Prop where
  vertices : ∀ v', G'.Has v' ↔ (∃ v, G.Has v ∧ ρ.vertex v = v') ∨
    ∃ name ∈ extra, v' = .native name ∨ v' = .prop (Builtin.property name)
  edges : ∀ e', e' ∈ G'.edgeSet ↔ (∃ e ∈ G.edgeSet, ρ.edge e = e') ∨
    ∃ name ∈ extra, Builtin.link name = e'
  flagged : ∀ v', G'.Flagged v' ↔ ∃ v, G.Flagged v ∧ ρ.vertex v = v'
  apart : ∀ name ∈ extra, ¬ G.Has (.native name)

namespace Mirrors

variable {extra : Set String} {ρ : Renaming} {G G' : FlowGraph}

/-- **What flows is the same.** Out of a vertex that is no extra built-in function flow goes to
renamed vertices only, and to those that it goes to in the other graph. -/
theorem flows_iff (h : Mirrors extra ρ G G') {v w' : Vertex}
    (hv : ∀ name ∈ extra, v ≠ .native name) :
    Flows G'.edgeSet (ρ.vertex v) w' ↔ ∃ w, Flows G.edgeSet v w ∧ ρ.vertex w = w' := by
  constructor
  · intro hflow
    -- along the path; no vertex on it is an extra built-in function
    suffices hpath : ∃ w, Flows G.edgeSet v w ∧ (∀ name ∈ extra, w ≠ .native name) ∧
        ρ.vertex w = w' by
      obtain ⟨w, hw, -, heq⟩ := hpath
      exact ⟨w, hw, heq⟩
    induction hflow with
    | refl => exact ⟨v, .refl, hv, rfl⟩
    | @tail x' y' _ hstep ih =>
      obtain ⟨x, hx, hxextra, rfl⟩ := ih
      obtain ⟨htracked, hedge⟩ := hstep
      rcases (h.edges _).1 hedge with ⟨⟨a, b⟩, hab, heq⟩ | ⟨name, hname, heq⟩
      · obtain ⟨hax, hby⟩ := Prod.mk.inj heq
        obtain rfl := ρ.vertex_injective hax
        refine ⟨b, hx.tail ⟨by rwa [ρ.isTracked_vertex] at htracked, hab⟩, ?_, hby⟩
        rintro name hname rfl
        exact h.apart name hname (has_of_mem_edgeSet hab).2
      · exact absurd (ρ.vertex_eq_native.1 (congrArg Prod.fst heq).symm) (hxextra name hname)
  · rintro ⟨w, hflow, rfl⟩
    refine hflow.lift ρ.vertex fun a b hab => ?_
    exact ⟨by rw [ρ.isTracked_vertex]; exact hab.1, (h.edges _).2 (Or.inl ⟨(a, b), hab.2, rfl⟩)⟩

/-- A flow that starts at no built-in function is a renamed one, for nothing flows into such
functions. -/
theorem flows_callee_iff (h : Mirrors extra ρ G G') {v : Vertex} {c : CallId}
    (hv : ∀ name ∈ extra, v ≠ .native name) :
    Flows G'.edgeSet (ρ.vertex v) (.callee (ρ.callId c)) ↔ Flows G.edgeSet v (.callee c) := by
  rw [h.flows_iff hv]
  constructor
  · rintro ⟨w, hw, heq⟩
    obtain rfl : w = .callee c := ρ.vertex_injective heq
    exact hw
  · exact fun hflow => ⟨_, hflow, rfl⟩

/-- What is wanted in one graph is wanted in the other. -/
theorem wanted_iff (h : Mirrors extra ρ G G') {v : Vertex}
    (hv : ∀ name ∈ extra, v ≠ .native name) :
    Wanted G'.edgeSet (ρ.vertex v) ↔ Wanted G.edgeSet v := by
  constructor
  · rintro ⟨c', hflow⟩
    obtain ⟨w, hw, heq⟩ := (h.flows_iff hv).1 hflow
    obtain ⟨c, rfl, -⟩ := ρ.vertex_eq_callee.1 heq
    exact ⟨c, hw⟩
  · rintro ⟨c, hflow⟩
    exact ⟨ρ.callId c, (h.flows_callee_iff hv).2 hflow⟩

/-- The calls of the mirrored graph are registered. -/
theorem calleesRegistered {p p' : Program} (h : Mirrors extra ρ G G') (hp : p.Renamed ρ p')
    (hreg : CalleesRegistered p G) : CalleesRegistered p' G' := by
  intro c' hc'
  rcases (h.vertices _).1 hc' with ⟨v, hv, heq⟩ | ⟨name, -, heq | heq⟩
  · obtain ⟨c, rfl, rfl⟩ := ρ.vertex_eq_callee.1 heq
    obtain ⟨site, hsite⟩ := hreg c hv
    exact ⟨ρ.site site, by rw [hp.call?, hsite]; rfl⟩
  · cases heq
  · cases heq

/-! ### Counts -/

theorem edgeSet_eq (h : Mirrors extra ρ G G') :
    G'.edgeSet = ρ.edge '' G.edgeSet ∪ Builtin.link '' extra :=
  Set.ext h.edges

/-- There are as many edges, and one for each extra built-in function. -/
theorem edgeCount_eq (h : Mirrors extra ρ G G') :
    G'.edgeCount = G.edgeCount + (Builtin.link '' extra).ncard := by
  have hfinite : (Builtin.link '' extra).Finite :=
    G'.finite_edgeSet.subset (h.edgeSet_eq ▸ Set.subset_union_right)
  have hdisjoint : Disjoint (ρ.edge '' G.edgeSet) (Builtin.link '' extra) := by
    rw [Set.disjoint_left]
    rintro e ⟨⟨a, b⟩, hab, rfl⟩ ⟨name, hname, heq⟩
    obtain rfl := ρ.vertex_eq_native.1 (congrArg Prod.fst heq).symm
    exact h.apart name hname (has_of_mem_edgeSet hab).1
  rw [← ncard_edgeSet, h.edgeSet_eq,
    Set.ncard_union_eq hdisjoint (G.finite_edgeSet.image _) hfinite,
    Set.ncard_image_of_injective _ ρ.edge_injective, ncard_edgeSet]

theorem edgeCount_same (h : Mirrors ∅ ρ G G') : G'.edgeCount = G.edgeCount := by
  rw [h.edgeCount_eq, Set.image_empty, Set.ncard_empty, Nat.add_zero]

theorem interestingCount_eq (h : Mirrors extra ρ G G') :
    G'.interestingCount = G.interestingCount := by
  rw [← ncard_flaggedSet, ← ncard_flaggedSet,
    show G'.flaggedSet = ρ.vertex '' G.flaggedSet from Set.ext h.flagged,
    Set.ncard_image_of_injective _ ρ.vertex_injective]

theorem vertexCount_eq (h : Mirrors ∅ ρ G G') : G'.vertexCount = G.vertexCount := by
  have hvertices : G'.vertexSet = ρ.vertex '' G.vertexSet := Set.ext fun v' => by
    show G'.Has v' ↔ ∃ v, G.Has v ∧ ρ.vertex v = v'
    simpa using h.vertices v'
  rw [← ncard_vertexSet, ← ncard_vertexSet, hvertices,
    Set.ncard_image_of_injective _ ρ.vertex_injective]

end Mirrors

end FlowGraph

end CallFlow
