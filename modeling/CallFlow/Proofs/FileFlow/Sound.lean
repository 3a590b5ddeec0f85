import CallFlow.Proofs.Binding.Symbol
import CallFlow.Proofs.Flow.Edges
import CallFlow.Proofs.Renaming.Basic

/-!
# What holds of every state

`FlowState.Sound` says that a state names nothing that it does not have, that functions have their
vertices in the order of their numbers, and that nothing is flagged yet. There is one lemma for
each primitive step.
-/

namespace CallFlow

/-- Functions have their vertices in the order of their numbers. -/
def FlowGraph.FunctionsInOrder (graph : FlowGraph) : Prop :=
  ∀ f g i j, graph.find? (.func f) = some i → graph.find? (.func g) = some j →
    f.index < g.index → i.index < j.index

/-- The numbers that a state has given out. -/
def FlowState.extent (s : FlowState) : Extent
  | .file => s.program.files.size
  | .function => s.program.functions.size
  | .call => s.program.calls.size
  | .symbol => s.symbols.size

/-- What holds of every state that a history leads to. Numbers stand for things that are there, and
names are bound below the global scope only. -/
structure FlowState.Sound (s : FlowState) : Prop where
  functions : ∀ f ∈ s.program.functions, f.Within s.extent
  calls : ∀ c ∈ s.program.calls, c.Within s.extent
  vertices : ∀ v, s.graph.Has v → v.Within s.extent
  inOrder : s.graph.FunctionsInOrder
  unflagged : ∀ v, ¬ s.graph.Flagged v
  root : s.scopes.scope? ScopeTree.global = some ⟨.globalScope, none⟩
  binds : s.symbols.BindsIn s.scopes

/-! ## The graph -/

namespace FlowGraph

variable {graph : FlowGraph}

theorem has_addEdge (s t : VertexId) (v : Vertex) :
    (graph.addEdge s t).2.Has v ↔ graph.Has v := by
  simp only [Has, find?_addEdge]

theorem flagged_addEdge (s t : VertexId) (v : Vertex) :
    (graph.addEdge s t).2.Flagged v ↔ graph.Flagged v := by
  simp only [Flagged, find?_addEdge, isInteresting_addEdge]

/-- No vertex is joined to itself. -/
theorem addEdge_self (graph : FlowGraph) (id : VertexId) : (graph.addEdge id id).2 = graph := by
  rw [addEdge, if_pos (Or.inl rfl)]

/-- A vertex that is new gets the next number. -/
theorem intern_fst_of_not_has {v : Vertex} (h : ¬ graph.Has v) :
    (graph.intern v).1 = ⟨graph.vertexCount⟩ := by
  unfold intern
  split
  · next id hid => exact absurd ⟨id, hid⟩ h
  · rfl

/-- Interning keeps all numbers. -/
theorem find?_intern_of_find? (v : Vertex) {w : Vertex} {id : VertexId}
    (h : graph.find? w = some id) : (graph.intern v).2.find? w = some id := by
  rw [find?_intern]
  split
  · next hw => rw [intern_of_find? (hw ▸ h)]
  · exact h

theorem find?_connect_of_find? (a b : Vertex) {w : Vertex} {id : VertexId}
    (h : graph.find? w = some id) : (graph.connect a b).2.find? w = some id :=
  (find?_addEdge ..).trans (find?_intern_of_find? b (find?_intern_of_find? a h))

/-- Functions are added in the order of their numbers. -/
theorem FunctionsInOrder.intern (h : graph.FunctionsInOrder) {v : Vertex}
    (hv : ∀ f, v = .func f → graph.Has v ∨ ∀ g, graph.Has (.func g) → g.index ≤ f.index) :
    (graph.intern v).2.FunctionsInOrder := by
  by_cases hhas : graph.Has v
  · obtain ⟨id, hid⟩ := hhas
    rw [intern_of_find? hid]
    exact h
  intro f g i j hi hj hfg
  rw [find?_intern] at hi hj
  split at hj
  · next hgv =>
    -- the new vertex has the greatest number
    rw [intern_fst_of_not_has hhas] at hj
    obtain rfl := Option.some.inj hj
    split at hi
    · next hfv =>
      obtain rfl := Vertex.func.inj (hfv.trans hgv.symm)
      exact absurd hfg (lt_irrefl _)
    · exact lt_of_find? hi
  · split at hi
    · next hfv =>
      have hlater := (hv f hfv.symm).resolve_left hhas g ⟨j, hj⟩
      omega
    · exact h f g i j hi hj hfg

theorem FunctionsInOrder.of_find? {other : FlowGraph} (h : graph.FunctionsInOrder)
    (hsame : ∀ f, other.find? (.func f) = graph.find? (.func f)) : other.FunctionsInOrder := by
  intro f g i j hi hj hfg
  rw [hsame] at hi hj
  exact h f g i j hi hj hfg

/-- A graph that keeps all numbers and has no other functions. -/
theorem FunctionsInOrder.of_keeps {other : FlowGraph} (h : graph.FunctionsInOrder)
    (hkeeps : ∀ v id, graph.find? v = some id → other.find? v = some id)
    (hnew : ∀ f, other.Has (.func f) → graph.Has (.func f)) : other.FunctionsInOrder := by
  refine h.of_find? fun f => ?_
  cases hold : graph.find? (.func f) with
  | some id => exact hkeeps _ id hold
  | none =>
    cases hfound : other.find? (.func f) with
    | none => rfl
    | some id =>
      obtain ⟨id', hid'⟩ := hnew f ⟨id, hfound⟩
      rw [hold] at hid'
      cases hid'

end FlowGraph

/-! ## The steps -/

namespace FlowState.Sound

variable {s : FlowState}

/-- A vertex that names what is there; the vertex of a function is added after it and before the
next one. -/
theorem intern (h : s.Sound) {v : Vertex} (hv : v.Within s.extent)
    (hfunc : ∀ f, v = .func f → s.graph.Has v ∨ f.index + 1 = s.extent .function) :
    ({ s with graph := (s.graph.intern v).2 } : FlowState).Sound :=
  { h with
    vertices := fun w hw => by
      rcases (FlowGraph.has_intern s.graph v w).1 hw with hw | rfl
      · exact h.vertices w hw
      · exact hv
    inOrder := h.inOrder.intern fun f hf => (hfunc f hf).imp_right fun hnew g hg => by
      have hlt : g.index < s.extent .function := h.vertices _ hg
      omega
    unflagged := fun w hw => h.unflagged w ((FlowGraph.flagged_intern s.graph v w).1 hw) }

theorem addEdge (h : s.Sound) (source target : VertexId) :
    ({ s with graph := (s.graph.addEdge source target).2 } : FlowState).Sound :=
  { h with
    vertices := fun v hv => h.vertices v ((FlowGraph.has_addEdge source target v).1 hv)
    inOrder := h.inOrder.of_find? fun _ => FlowGraph.find?_addEdge ..
    unflagged := fun v hv => h.unflagged v ((FlowGraph.flagged_addEdge source target v).1 hv) }

/-- A graph with more vertices, none of which is a function. -/
theorem withGraph (h : s.Sound) {graph : FlowGraph}
    (hkeeps : ∀ v id, s.graph.find? v = some id → graph.find? v = some id)
    (hnew : ∀ v, graph.Has v → s.graph.Has v ∨ v.Within s.extent ∧ ∀ f, v ≠ .func f)
    (hflagged : ∀ v, graph.Flagged v → s.graph.Flagged v) : ({ s with graph } : FlowState).Sound :=
  { h with
    vertices := fun v hv => (hnew v hv).elim (h.vertices v) And.left
    inOrder := h.inOrder.of_keeps hkeeps fun f hf => (hnew _ hf).resolve_right fun ⟨_, hne⟩ =>
      hne f rfl
    unflagged := fun v hv => h.unflagged v (hflagged v hv) }

/-- More numbers in use change nothing of what is there. -/
theorem extend (h : s.Sound) {program : Program}
    (hextent : s.extent ≤ ({ s with program } : FlowState).extent)
    (hfunctions : ∀ f ∈ program.functions, f ∈ s.program.functions ∨ f.Within s.extent)
    (hcalls : ∀ c ∈ program.calls, c ∈ s.program.calls ∨ c.Within s.extent) :
    ({ s with program } : FlowState).Sound :=
  { h with
    functions := fun f hf => ((hfunctions f hf).elim (h.functions f) id).mono hextent
    calls := fun c hc => ((hcalls c hc).elim (h.calls c) id).mono hextent
    vertices := fun v hv => (h.vertices v hv).mono hextent }

theorem addFile (h : s.Sound) (path : Path) :
    ({ s with program := (s.program.addFile path).2 } : FlowState).Sound :=
  h.extend (fun k => by cases k <;> simp [extent, Program.addFile])
    (fun _ => Or.inl) fun _ => Or.inl

/-- A function names what there is, and its vertex is still to come. -/
theorem addFunction (h : s.Sound) {f : Function} (hf : f.Within s.extent) :
    ({ s with program := (s.program.addFunction f).2 } : FlowState).Sound := by
  refine h.extend (fun k => by cases k <;> simp [extent, Program.addFunction])
    (fun g hg => ?_) fun _ => Or.inl
  rcases Array.mem_push.1 hg with hg | rfl
  · exact Or.inl hg
  · exact Or.inr hf

/-- A call names what there is. -/
theorem addCall (h : s.Sound) {site : CallSite} (hsite : site.Within s.extent) :
    ({ s with program := (s.program.addCall site).2 } : FlowState).Sound := by
  refine h.extend (fun k => by cases k <;> simp [extent, Program.addCall])
    (fun _ => Or.inl) fun c hc => ?_
  rcases Array.mem_push.1 hc with hc | rfl
  · exact Or.inl hc
  · exact Or.inr hsite

/-- A scope binds nothing yet. -/
theorem createScope (h : s.Sound) (kind : ScopeKind) (parent : ScopeId) :
    ({ s with scopes := (s.scopes.create kind parent).2 } : FlowState).Sound :=
  { h with
    root := by
      have hne : ScopeTree.global ≠ ⟨s.scopes.size⟩ := fun heq =>
        (ScopeTree.size_pos h.root).ne (congrArg ScopeId.index heq)
      rw [ScopeTree.scope?_create, if_neg hne]
      exact h.root
    binds := fun scope name id hid => by
      obtain ⟨hpos, hlt, hid⟩ := h.binds scope name id hid
      exact ⟨hpos, hlt.trans (by simp), hid⟩ }

/-- A name is declared below the global scope. -/
theorem declare (h : s.Sound) (name : String) (kind : SymbolKind) {scope : ScopeId}
    (hpos : 0 < scope.index) (hlt : scope.index < s.scopes.size) :
    ({ s with symbols := (s.symbols.declare name kind scope).2 } : FlowState).Sound := by
  have hextent : s.extent ≤
      ({ s with symbols := (s.symbols.declare name kind scope).2 } : FlowState).extent := by
    intro k
    cases k <;> simp [extent, SymbolTable.size_declare]
  exact
    { h with
      functions := fun f hf => (h.functions f hf).mono hextent
      calls := fun c hc => (h.calls c hc).mono hextent
      vertices := fun v hv => (h.vertices v hv).mono hextent
      binds := h.binds.declare name kind hpos hlt }

/-- The state without files. -/
theorem empty : ({} : FlowState).Sound where
  functions := nofun
  calls := nofun
  vertices := fun v hv => absurd hv (FlowGraph.not_has_empty v)
  inOrder := fun f _ i _ hi => absurd ⟨i, hi⟩ (FlowGraph.not_has_empty (.func f))
  unflagged := fun v hv => FlowGraph.not_has_empty v hv.has
  root := rfl
  binds := fun scope name id hid => by simp [SymbolTable.binding?, SymbolTable.empty] at hid

end FlowState.Sound

end CallFlow
