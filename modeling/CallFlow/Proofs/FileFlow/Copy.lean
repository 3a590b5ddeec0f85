import CallFlow.Proofs.FileFlow.Scopes
import CallFlow.Proofs.Module.View

/-!
# What a file contributes

A file is walked twice, from the empty state and from a state `base` that has other files. What
the first walk adds is what the second adds, with all numbers moved behind those of `base`:
`Twin.Copies` says so of two states in between, and has one lemma for each primitive step.
-/

namespace CallFlow

/-- The numbers that a file alone gives out, as they are behind those of `base`. -/
def FlowState.shift (base : FlowState) : Renaming := .shift base.extent

/-- Two states of the walk over one file: of the file alone, and amid other files. -/
structure Twin where
  alone : FileState
  amid : FileState

namespace Twin

/-- The one state has what `base` has and, behind it, what the other one has. -/
structure Copies (base : FlowState) (w : Twin) : Prop where
  sound : base.Sound
  sound_alone : w.alone.flow.Sound
  sound_amid : w.amid.flow.Sound
  nested : w.alone.flow.scopes.Nested
  files : w.amid.flow.program.files = base.program.files ++ w.alone.flow.program.files
  functions : w.amid.flow.program.functions =
    base.program.functions ++ w.alone.flow.program.functions.map base.shift.function
  calls : w.amid.flow.program.calls =
    base.program.calls ++ w.alone.flow.program.calls.map base.shift.site
  scopes : ScopeTree.Grafted base.scopes w.alone.flow.scopes w.amid.flow.scopes
  symbols : SymbolTable.Grafted base.scopes.size base.symbols.size w.alone.flow.symbols
    w.amid.flow.symbols
  vertices : ∀ v, w.amid.flow.graph.Has v ↔
    base.graph.Has v ∨ ∃ u, w.alone.flow.graph.Has u ∧ base.shift.vertex u = v
  edges : w.amid.flow.graph.edgeSet =
    base.graph.edgeSet ∪ base.shift.edge '' w.alone.flow.graph.edgeSet
  keeps : ∀ v id, base.graph.find? v = some id → w.amid.flow.graph.find? v = some id
  /-- Built-in functions are not written in a file. -/
  written : ∀ name, ¬ w.alone.flow.graph.Has (.native name)
  /-- The file alone is the only one. -/
  own : w.alone.record.file = ⟨0⟩ ∧ w.alone.flow.program.files = #[w.alone.record.path]
  record : ∃ view, w.alone.record.Denotes w.alone.flow.graph view ∧
    w.amid.record.Denotes w.amid.flow.graph (base.shift.view view)

/-- The numbers of one vertex in both graphs. -/
def Names (base : FlowState) (w : Twin) (v : Vertex) (a b : VertexId) : Prop :=
  w.alone.flow.graph.find? v = some a ∧ w.amid.flow.graph.find? (base.shift.vertex v) = some b

/-- Two numbers are those of one vertex. -/
def Same (base : FlowState) (w : Twin) (a b : VertexId) : Prop :=
  ∃ v, w.Names base v a b

/-- Two states that come later: everything has kept its number. -/
structure Later (w later : Twin) : Prop where
  alone : ∀ v id, w.alone.flow.graph.find? v = some id →
    later.alone.flow.graph.find? v = some id
  amid : ∀ v id, w.amid.flow.graph.find? v = some id → later.amid.flow.graph.find? v = some id
  extent : w.alone.flow.extent ≤ later.alone.flow.extent
  scopes : w.alone.flow.scopes.size ≤ later.alone.flow.scopes.size

variable {base : FlowState} {w u : Twin}

theorem Later.refl (w : Twin) : w.Later w :=
  ⟨fun _ _ h => h, fun _ _ h => h, le_refl _, le_refl _⟩

/-- The records do not matter. -/
theorem Later.of_flow (halone : u.alone.flow = w.alone.flow) (hamid : u.amid.flow = w.amid.flow) :
    w.Later u := by
  refine ⟨?_, ?_, ?_, ?_⟩ <;> simp only [halone, hamid, le_refl, imp_self, implies_true]

theorem Later.trans {v : Twin} (h : w.Later u) (h' : u.Later v) : w.Later v :=
  ⟨fun x id hx => h'.alone x id (h.alone x id hx), fun x id hx => h'.amid x id (h.amid x id hx),
    h.extent.trans h'.extent, h.scopes.trans h'.scopes⟩

theorem Names.later {v : Vertex} {a b : VertexId} (h : w.Names base v a b) (hu : w.Later u) :
    u.Names base v a b :=
  ⟨hu.alone v a h.1, hu.amid _ b h.2⟩

theorem Names.same {v : Vertex} {a b : VertexId} (h : w.Names base v a b) : w.Same base a b :=
  ⟨v, h⟩

theorem Same.later {a b : VertexId} (h : w.Same base a b) (hu : w.Later u) : u.Same base a b :=
  h.imp fun _ hv => hv.later hu

theorem later_option {a b : Option VertexId} (h : Option.Rel (w.Same base) a b)
    (hu : w.Later u) : Option.Rel (u.Same base) a b := by
  cases h with
  | none => exact .none
  | some h => exact .some (h.later hu)

/-! ## The steps -/

/-- Other graphs in the two states. -/
def withGraphs (w : Twin) (alone amid : FlowGraph) : Twin where
  alone := { w.alone with flow := { w.alone.flow with graph := alone } }
  amid := { w.amid with flow := { w.amid.flow with graph := amid } }

/-- Other programs in the two states. -/
def withPrograms (w : Twin) (alone amid : Program) : Twin where
  alone := { w.alone with flow := { w.alone.flow with program := alone } }
  amid := { w.amid with flow := { w.amid.flow with program := amid } }

/-- Other scopes in the two states. -/
def withScopes (w : Twin) (alone amid : ScopeTree) : Twin where
  alone := { w.alone with flow := { w.alone.flow with scopes := alone } }
  amid := { w.amid with flow := { w.amid.flow with scopes := amid } }

/-- Other symbols in the two states. -/
def withSymbols (w : Twin) (alone amid : SymbolTable) : Twin where
  alone := { w.alone with flow := { w.alone.flow with symbols := alone } }
  amid := { w.amid with flow := { w.amid.flow with symbols := amid } }

/-- Other records in the two states. -/
def withRecords (w : Twin) (alone amid : ModuleRecord) : Twin where
  alone := { w.alone with record := alone }
  amid := { w.amid with record := amid }

namespace Copies

variable (h : w.Copies base)
include h

/-- As many numbers are given out amid the other files as there and in the file alone together. -/
theorem extent_amid : w.amid.flow.extent = base.extent + w.alone.flow.extent := by
  funext k
  cases k with
  | file => simp [FlowState.extent, h.files]
  | function => simp [FlowState.extent, h.functions]
  | call => simp [FlowState.extent, h.calls]
  | symbol => exact h.symbols.size_eq

theorem size_scopes_pos : 0 < base.scopes.size := ScopeTree.size_pos h.sound.root

/-- What is in the graph of the file alone is in the other one too. -/
theorem has_amid {v : Vertex} (hv : w.alone.flow.graph.Has v) :
    w.amid.flow.graph.Has (base.shift.vertex v) :=
  (h.vertices _).2 (Or.inr ⟨v, hv, rfl⟩)

/-- A vertex is added to both graphs. It is none of a built-in function, and that of a function is
new together with the function. -/
theorem intern {v : Vertex} (hv : v.Within w.alone.flow.extent)
    (hwritten : ∀ name, v ≠ .native name)
    (hfunc : ∀ f, v = .func f →
      w.alone.flow.graph.Has v ∨ f.index + 1 = w.alone.flow.extent .function) :
    (w.withGraphs (w.alone.flow.graph.intern v).2
      (w.amid.flow.graph.intern (base.shift.vertex v)).2).Copies base := by
  have hshifted : (base.shift.vertex v).Within w.amid.flow.extent := by
    rw [h.extent_amid]
    exact Renaming.vertex_shift_within hv
  exact
    { h with
      sound_alone := h.sound_alone.intern hv hfunc
      -- the vertex of a function comes right after the function, in this walk as in the other
      sound_amid := h.sound_amid.intern hshifted fun f hf => by
        obtain ⟨g, rfl, rfl⟩ := (Renaming.vertex_eq_func _).1 hf
        refine (hfunc g rfl).imp h.has_amid fun hnew => ?_
        rw [h.extent_amid]
        show base.extent .function + g.index + 1 = base.extent .function + _
        omega
      vertices := fun x => by
        show (FlowGraph.intern _ _).2.Has x ↔ _ ∨ ∃ u, (FlowGraph.intern _ _).2.Has u ∧ _
        simp only [FlowGraph.has_intern, h.vertices, or_and_right, exists_or, exists_eq_left,
          or_assoc, eq_comm (a := x)]
      edges := by
        show (FlowGraph.intern _ _).2.edgeSet = _ ∪ _ '' (FlowGraph.intern _ _).2.edgeSet
        rw [FlowGraph.edgeSet_intern, FlowGraph.edgeSet_intern, h.edges]
      keeps := fun x id hx => FlowGraph.find?_intern_of_find? _ (h.keeps x id hx)
      written := fun name hname => by
        rcases (FlowGraph.has_intern _ _ _).1 hname with hname | hname
        · exact h.written name hname
        · exact hwritten name hname.symm
      record := by
        obtain ⟨view, halone, hamid⟩ := h.record
        exact ⟨view, halone.mono fun _ _ => FlowGraph.find?_intern_of_find? _,
          hamid.mono fun _ _ => FlowGraph.find?_intern_of_find? _⟩ }

/-- An edge is added to both graphs, between vertices that are the same. -/
theorem addEdge {a b c d : VertexId} (hs : w.Same base a c) (ht : w.Same base b d) :
    (w.withGraphs (w.alone.flow.graph.addEdge a b).2
      (w.amid.flow.graph.addEdge c d).2).Copies base := by
  obtain ⟨x, hxa, hxc⟩ := hs
  obtain ⟨y, hyb, hyd⟩ := ht
  exact
    { h with
      sound_alone := h.sound_alone.addEdge a b
      sound_amid := h.sound_amid.addEdge c d
      vertices := fun v => by
        show (FlowGraph.addEdge _ _ _).2.Has v ↔ _ ∨ ∃ u, (FlowGraph.addEdge _ _ _).2.Has u ∧ _
        simp only [FlowGraph.has_addEdge, h.vertices]
      edges := by
        show (FlowGraph.addEdge _ _ _).2.edgeSet = _ ∪ _ '' (FlowGraph.addEdge _ _ _).2.edgeSet
        by_cases hxy : x = y
        · -- an edge from a vertex to itself is not added, to neither graph
          subst hxy
          obtain rfl := Option.some.inj (hxa.symm.trans hyb)
          obtain rfl := Option.some.inj (hxc.symm.trans hyd)
          rw [FlowGraph.addEdge_self, FlowGraph.addEdge_self]
          exact h.edges
        · have hne : base.shift.vertex x ≠ base.shift.vertex y := fun heq =>
            hxy (base.shift.vertex_injective heq)
          rw [(FlowGraph.edgeSet_addEdge hxa hyb hxy).2, (FlowGraph.edgeSet_addEdge hxc hyd hne).2,
            h.edges, Set.image_insert_eq, Set.union_insert]
          rfl
      keeps := fun v id hv => (FlowGraph.find?_addEdge ..).trans (h.keeps v id hv)
      written := fun name hname => h.written name ((FlowGraph.has_addEdge ..).1 hname)
      record := by
        obtain ⟨view, halone, hamid⟩ := h.record
        exact ⟨view, halone.mono fun _ _ hv => (FlowGraph.find?_addEdge ..).trans hv,
          hamid.mono fun _ _ hv => (FlowGraph.find?_addEdge ..).trans hv⟩ }

/-- A function is added to both programs, in the second one with its numbers moved. -/
theorem addFunction {f : Function} (hf : f.Within w.alone.flow.extent) :
    (w.withPrograms (w.alone.flow.program.addFunction f).2
      (w.amid.flow.program.addFunction (base.shift.function f)).2).Copies base :=
  { h with
    sound_alone := h.sound_alone.addFunction hf
    sound_amid := h.sound_amid.addFunction (by
      rw [h.extent_amid]
      exact Renaming.function_shift_within hf)
    functions := by
      show Array.push _ _ = _ ++ (Array.push _ _).map _
      rw [Array.map_push, Array.append_push, h.functions] }

/-- So is a call. -/
theorem addCall {site : CallSite} (hsite : site.Within w.alone.flow.extent) :
    (w.withPrograms (w.alone.flow.program.addCall site).2
      (w.amid.flow.program.addCall (base.shift.site site)).2).Copies base :=
  { h with
    sound_alone := h.sound_alone.addCall hsite
    sound_amid := h.sound_amid.addCall (by
      rw [h.extent_amid]
      exact Renaming.site_shift_within hsite)
    calls := by
      show Array.push _ _ = _ ++ (Array.push _ _).map _
      rw [Array.map_push, Array.append_push, h.calls] }

/-- A scope is created in both trees, below scopes that are the same and none of which is the global
one. -/
theorem createScope (kind : ScopeKind) {parent : ScopeId} (hpos : 0 < parent.index)
    (hlt : parent.index < w.alone.flow.scopes.size) :
    (w.withScopes (w.alone.flow.scopes.create kind parent).2
      (w.amid.flow.scopes.create kind (ScopeTree.moved base.scopes.size parent)).2).Copies base :=
  { h with
    sound_alone := h.sound_alone.createScope kind parent
    sound_amid := h.sound_amid.createScope kind _
    nested := h.nested.create kind hpos hlt
    scopes := h.scopes.create h.size_scopes_pos (hpos.trans hlt) kind parent }

/-- A name is declared in both tables. -/
theorem declare (name : String) (kind : SymbolKind) {scope : ScopeId} (hpos : 0 < scope.index)
    (hlt : scope.index < w.alone.flow.scopes.size) :
    (w.withSymbols (w.alone.flow.symbols.declare name kind scope).2
      (w.amid.flow.symbols.declare name kind
        (ScopeTree.moved base.scopes.size scope)).2).Copies base :=
  { h with
    sound_alone := h.sound_alone.declare name kind hpos hlt
    sound_amid := h.sound_amid.declare name kind (ScopeTree.moved_pos h.size_scopes_pos hpos) (by
      have hsize := h.scopes.size_eq
      rw [ScopeTree.moved_of_pos hpos]
      show base.scopes.size + (scope.index - 1) < w.amid.flow.scopes.size
      omega)
    symbols := h.symbols.declare h.size_scopes_pos name kind scope }

/-- A name is offered in both records. -/
theorem addExport (name : String) {a b : VertexId} (hs : w.Same base a b) :
    (w.withRecords
      { w.alone.record with exports := w.alone.record.exports.push ⟨name, a⟩ }
      { w.amid.record with exports := w.amid.record.exports.push ⟨name, b⟩ }).Copies base :=
  { h with
    record := by
      obtain ⟨v, ha, hb⟩ := hs
      obtain ⟨view, halone, hamid⟩ := h.record
      refine ⟨_, halone.addExport name ha, ?_⟩
      rw [Renaming.view, List.map_append]
      exact hamid.addExport name hb }

/-- Something is asked for in both records. -/
theorem addImport (specifier : String) (imported : ImportedName) {a b : VertexId}
    (hs : w.Same base a b) :
    (w.withRecords
      { w.alone.record with imports := w.alone.record.imports.push ⟨specifier, imported, a⟩ }
      { w.amid.record with imports := w.amid.record.imports.push ⟨specifier, imported, b⟩ }
      ).Copies base :=
  { h with
    record := by
      obtain ⟨v, ha, hb⟩ := hs
      obtain ⟨view, halone, hamid⟩ := h.record
      refine ⟨_, halone.addImport specifier imported ha, ?_⟩
      rw [Renaming.view, List.map_append]
      exact hamid.addImport specifier imported hb }

/-- A call of `require` is noted in both records. -/
theorem addRequire (specifier : String) {call : CallId}
    (hcall : w.alone.flow.graph.Has (.res call)) :
    (w.withRecords
      { w.alone.record with requires := w.alone.record.requires.push ⟨specifier, call⟩ }
      { w.amid.record with
        requires := w.amid.record.requires.push ⟨specifier, base.shift.callId call⟩ }
      ).Copies base :=
  { h with
    record := by
      obtain ⟨view, halone, hamid⟩ := h.record
      refine ⟨_, halone.addRequire specifier hcall, ?_⟩
      rw [Renaming.view, List.map_append]
      exact hamid.addRequire specifier (h.has_amid hcall) }

end Copies

end Twin

end CallFlow
